import RemoteInput.Platforms.Macos

/-!
# The cursor stays on a display

The regions may overlap or lie apart, so the nearest point is looked for in each region and then among the candidates.
-/

namespace RemoteInput

/-! ## Visible points -/

section Points

variable {α : Type} [CommRing α]

/-- The square of the distance between two points. -/
def CGPoint.distanceSq (p q : CGPoint α) : α := (p.x - q.x) ^ 2 + (p.y - q.y) ^ 2

theorem CGPoint.distanceSq_self (p : CGPoint α) : p.distanceSq p = 0 := by simp [CGPoint.distanceSq]

variable [LinearOrder α]

/-- The points where the cursor may stand on a display. -/
def CGRect.region (rect : CGRect α) : Set (CGPoint α) :=
  { p | p.x ∈ Set.Icc rect.origin.x (rect.origin.x + rect.size.width - 1) ∧
    p.y ∈ Set.Icc rect.origin.y (rect.origin.y + rect.size.height - 1) }

/-- The points of all displays. -/
def CoreGraphics.visible (cg : CoreGraphics α) : Set (CGPoint α) := ⋃ display ∈ cg.displays, (cg.bounds display).region

/-- The point of a display that is a candidate. -/
def CoreGraphics.nearest (point : CGPoint α) (rect : CGRect α) : CGPoint α where
  x := Clamp.clamp rect.origin.x (rect.origin.x + rect.size.width - 1) point.x
  y := Clamp.clamp rect.origin.y (rect.origin.y + rect.size.height - 1) point.y

theorem CoreGraphics.candidate_eq (point : CGPoint α) (rect : CGRect α) :
    candidate point rect =
      toLex ((nearest point rect).distanceSq point, toLex ((nearest point rect).x, (nearest point rect).y)) := rfl

namespace CoreGraphics

variable {cg : CoreGraphics α}

theorem mem_visible {p : CGPoint α} : p ∈ cg.visible ↔ ∃ display ∈ cg.displays, p ∈ (cg.bounds display).region := by
  simp [visible]

/-- The least candidate comes from a display, and none is closer. -/
theorem clamp_cases (hlist : cg.listError = 0) (hdisplays : cg.displays ≠ []) (point : CGPoint α) :
    ∃ display ∈ cg.displays, cg.clamp point = nearest point (cg.bounds display) ∧
      ∀ other ∈ cg.displays,
        (cg.clamp point).distanceSq point ≤ (nearest point (cg.bounds other)).distanceSq point := by
  obtain ⟨best, hbest⟩ := Option.isSome_iff_exists.mp
    (List.isSome_min?_of_ne_nil (mt List.map_eq_nil_iff.mp hdisplays : cg.displays.map
      (fun display => candidate point (cg.bounds display)) ≠ []))
  obtain ⟨hmem, hleast⟩ := List.min?_eq_some_iff.mp hbest
  obtain ⟨display, hdisplay, rfl⟩ := List.mem_map.mp hmem
  have hclamp : cg.clamp point = nearest point (cg.bounds display) := by
    rw [clamp, if_neg (not_not.mpr hlist)]
    dsimp only
    rw [hbest]
    rfl
  refine ⟨display, hdisplay, hclamp, fun other hother => ?_⟩
  have hle := hleast _ (List.mem_map_of_mem hother)
  rw [candidate_eq, candidate_eq, Prod.Lex.toLex_le_toLex] at hle
  rw [hclamp]
  rcases hle with hlt | ⟨heq, -⟩
  · exact hlt.le
  · exact heq.le

end CoreGraphics

end Points

variable {α : Type} [CommRing α] [LinearOrder α] [IsStrictOrderedRing α] {cg : CoreGraphics α} {point : CGPoint α}
  {rect : CGRect α}

/-- Only the point itself is at no distance. -/
theorem CGPoint.eq_of_distanceSq {p q : CGPoint α} (h : p.distanceSq q ≤ 0) : p = q := by
  have hx : (p.x - q.x) ^ 2 = 0 := le_antisymm ((le_add_of_nonneg_right (sq_nonneg _)).trans h) (sq_nonneg _)
  have hy : (p.y - q.y) ^ 2 = 0 := le_antisymm ((le_add_of_nonneg_left (sq_nonneg _)).trans h) (sq_nonneg _)
  cases p
  cases q
  congr
  · exact sub_eq_zero.mp (pow_eq_zero_iff two_ne_zero |>.mp hx)
  · exact sub_eq_zero.mp (pow_eq_zero_iff two_ne_zero |>.mp hy)

namespace CoreGraphics

/-! ## One display -/

theorem nearest_mem (hwidth : 1 ≤ rect.size.width) (hheight : 1 ≤ rect.size.height) (point : CGPoint α) :
    nearest point rect ∈ rect.region :=
  ⟨Clamp.clamp_mem (by linarith) _, Clamp.clamp_mem (by linarith) _⟩

theorem nearest_isMinOn (point : CGPoint α) (rect : CGRect α) :
    IsMinOn (fun p => p.distanceSq point) rect.region (nearest point rect) :=
  fun _ hp => add_le_add (Clamp.clamp_sq_le hp.1 _) (Clamp.clamp_sq_le hp.2 _)

/-! ## All displays -/

/-- `_clamp` returns a visible point, no visible point is closer, and a visible point stays where it is. -/
theorem clamp_nearest (cg : CoreGraphics α) (point : CGPoint α) (hlist : cg.listError = 0) (hdisplays : cg.displays ≠ [])
    (hsize : ∀ display ∈ cg.displays, 1 ≤ (cg.bounds display).size.width ∧ 1 ≤ (cg.bounds display).size.height) :
    cg.clamp point ∈ cg.visible ∧
      (∀ p ∈ cg.visible, (cg.clamp point).distanceSq point ≤ p.distanceSq point) ∧
      (point ∈ cg.visible → cg.clamp point = point) := by
  obtain ⟨display, hdisplay, hclamp, hleast⟩ := clamp_cases hlist hdisplays point
  have hmin : IsMinOn (fun p => p.distanceSq point) cg.visible (cg.clamp point) :=
    Clamp.isMinOn_biUnion (fun other _ => nearest_isMinOn point (cg.bounds other)) hleast
  refine ⟨mem_visible.mpr ⟨display, hdisplay, ?_⟩, fun p hp => hmin hp, fun hin => ?_⟩
  · rw [hclamp]
    exact nearest_mem (hsize display hdisplay).1 (hsize display hdisplay).2 point
  · have hzero : (cg.clamp point).distanceSq point ≤ point.distanceSq point := hmin hin
    exact CGPoint.eq_of_distanceSq (hzero.trans_eq point.distanceSq_self)

/-- Two displays beside each other, the left one lower. -/
def twoDisplays : CoreGraphics ℚ where
  location := some { x := 10, y := 20 }
  listError := 0
  ids := 7 :: 9 :: List.replicate 30 0
  count := 2
  bounds display := if display = 7 then ⟨⟨0, 0⟩, ⟨1440, 900⟩⟩ else ⟨⟨-1920, 300⟩, ⟨1920, 1080⟩⟩
  createsEvents := true

theorem clamp_nearest_beside :
    twoDisplays.clamp ⟨-5, 20⟩ ∈ twoDisplays.visible ∧
      (∀ p ∈ twoDisplays.visible, (twoDisplays.clamp ⟨-5, 20⟩).distanceSq ⟨-5, 20⟩ ≤ p.distanceSq ⟨-5, 20⟩) ∧
      (⟨-5, 20⟩ ∈ twoDisplays.visible → twoDisplays.clamp ⟨-5, 20⟩ = ⟨-5, 20⟩) :=
  clamp_nearest twoDisplays ⟨-5, 20⟩ rfl (by simp [displays, twoDisplays]) (by simp [displays, twoDisplays])

example : twoDisplays.clamp ⟨-5, 20⟩ = ⟨0, 20⟩ := by decide +kernel

/-! ## Moves -/

/-- The event of a move is at the visible point nearest to where the cursor was to go. -/
theorem move_visible {buttons : List Nat} {dx dy : α} {event : MouseEvent α} (hmove : cg.move buttons dx dy = .ok event)
    (hlist : cg.listError = 0) (hdisplays : cg.displays ≠ [])
    (hsize : ∀ display ∈ cg.displays, 1 ≤ (cg.bounds display).size.width ∧ 1 ≤ (cg.bounds display).size.height) :
    ∃ p, cg.location = some p ∧ event.point ∈ cg.visible ∧
      ∀ q ∈ cg.visible, event.point.distanceSq ⟨p.x + dx, p.y + dy⟩ ≤ q.distanceSq ⟨p.x + dx, p.y + dy⟩ := by
  cases hlocation : cg.location with
  | none =>
      rw [move, position, hlocation] at hmove
      cases hmove
  | some p =>
      refine ⟨p, rfl, ?_⟩
      have hpoint : event.point = cg.clamp ⟨p.x + dx, p.y + dy⟩ := by
        rw [move, position, hlocation] at hmove
        dsimp only [bind, Except.bind] at hmove
        split at hmove
        · cases hmove
        split at hmove
        · cases hmove
          rfl
        · cases hmove
      obtain ⟨hvisible, hmin, -⟩ := clamp_nearest cg ⟨p.x + dx, p.y + dy⟩ hlist hdisplays hsize
      rw [hpoint]
      exact ⟨hvisible, hmin⟩

end CoreGraphics

end RemoteInput
