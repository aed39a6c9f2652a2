import Feagi.Vision.Window
import Mathlib.Data.List.FinRange

/-!
# The brightness filter and the coordinates of bright pixels

`Filter.brightness(image)` fills `np.zeros(image.shape)` with each pixel that reaches
`genome["image_color_intensity_tolerance"]` and with `1` in place of every other pixel;
`Image.convert_image_to_coordinates(image)` lists `[x, y, 0]` for each pixel that reaches the
same tolerance, row by row: the positions, in numpy's flat order, of the entries of the
flattened image that reach it. The filter is idempotent, and after it every pixel is listed
when the tolerance is at most the `1` it writes.
-/

namespace Feagi.Vision

/-- `Filter.brightness(image)` for the tolerance `genome["image_color_intensity_tolerance"]`. -/
def Filter.brightness (tolerance : ℚ) (image : Image) : Image where
  rows := (List.finRange image.height).map fun x => (List.finRange image.width).map fun y =>
    if image.pixel x y ≥ tolerance then image.pixel x y else 1
  height := image.height
  width := image.width
  tall := by simp
  rectangular := by simp

/-- `Image.convert_image_to_coordinates(image)` for the same tolerance. -/
def Image.convertImageToCoordinates (tolerance : ℚ) (image : Image) : List (Nat × Nat × Nat) :=
  (List.finRange image.height).flatMap fun x =>
    ((List.finRange image.width).filter fun y => image.pixel x y ≥ tolerance).map
      fun y => (x.val, y.val, 0)

namespace Filter

variable (tolerance : ℚ) (image : Image)

theorem pixel_brightness (x : Fin image.height) (y : Fin image.width) :
    (brightness tolerance image).pixel x y =
      if image.pixel x y ≥ tolerance then image.pixel x y else 1 := by
  simp [brightness, Image.pixel]

theorem brightness_brightness :
    brightness tolerance (brightness tolerance image) = brightness tolerance image := by
  refine Image.ext (List.map_congr_left fun x _ => List.map_congr_left fun y _ => ?_) rfl rfl
  rw [pixel_brightness]
  split_ifs <;> rfl

end Filter

theorem map_finRange_enum {α : Type} (l : List α) {n : Nat} (length : l.length = n) :
    (List.finRange n).map (fun i => (i.val, l.get (i.cast length.symm))) = l.enum := by
  subst length
  exact List.ext_getElem (by simp) fun i _ _ => by simp

/-- Rows of one width, walked by position, list the entries of their concatenation: entry `i`
of the concatenation sits at `(i / width, i % width)`. -/
theorem flatMap_enumFrom_unravel (bright : ℚ → Bool) {width : Nat} :
    ∀ (rows : List (List ℚ)) (start : Nat), (∀ row ∈ rows, row.length = width) →
      (rows.enumFrom start).flatMap (fun r =>
          (r.2.enum.filter fun p => bright p.2).map fun p => (r.1, p.1, 0)) =
        ((rows.flatten.enumFrom (start * width)).filter fun p => bright p.2).map
          fun p => (p.1 / width, p.1 % width, 0)
  | [], _, _ => rfl
  | row :: rows, start, rectangular => by
    have row_width := rectangular row (List.mem_cons_self _ _)
    rw [List.enumFrom_cons, List.flatMap_cons, List.flatten_cons, List.enumFrom_append,
      List.filter_append, List.map_append, row_width, ← Nat.succ_mul,
      flatMap_enumFrom_unravel bright rows (start + 1) fun r mem => rectangular r (List.mem_cons_of_mem _ mem)]
    congr 1
    rw [List.enumFrom_eq_map_enum, List.filter_map, List.map_map]
    refine List.map_congr_left fun p mem => ?_
    have lt : p.1 < width := row_width ▸ List.fst_lt_of_mem_enum (List.mem_filter.mp mem).1
    simp [Nat.add_mul_div_right _ _ (Nat.zero_lt_of_lt lt), Nat.div_eq_of_lt lt, Nat.mod_eq_of_lt lt]

namespace Image

theorem convertImageToCoordinates_unravel (tolerance : ℚ) (image : Image) :
    image.convertImageToCoordinates tolerance =
      (image.rows.flatten.enum.filter fun p => tolerance ≤ p.2).map
        fun p => (p.1 / image.width, p.1 % image.width, 0) := by
  have unravel := flatMap_enumFrom_unravel (fun v => decide (tolerance ≤ v)) image.rows 0
    image.rectangular
  rw [Nat.zero_mul] at unravel
  refine Eq.trans ?_ unravel
  show _ = image.rows.enum.flatMap _
  rw [← map_finRange_enum image.rows image.tall, List.flatMap_map]
  refine List.flatMap_congr fun x _ => ?_
  rw [← map_finRange_enum _ (image.length_row x), List.filter_map, List.map_map]
  rfl

/-- The entries `2, 3, 4` of `[[1, 2], [3, 4]]` flattened sit at `(0, 1)`, `(1, 0)` and `(1, 1)`. -/
example : cornerImage.convertImageToCoordinates 2 = [(0, 1, 0), (1, 0, 0), (1, 1, 0)] := by decide

theorem convertImageToCoordinates_brightness (tolerance : ℚ) (image : Image) :
    (Filter.brightness tolerance image).convertImageToCoordinates tolerance =
      if tolerance ≤ 1 then
        (List.range image.height).flatMap fun x => (List.range image.width).map fun y => (x, y, 0)
      else image.convertImageToCoordinates tolerance := by
  unfold convertImageToCoordinates
  split_ifs with low
  · rw [← List.map_coe_finRange image.height, List.flatMap_map]
    refine List.flatMap_congr fun x _ => ?_
    rw [List.filter_eq_self.mpr fun y _ => ?_, ← List.map_coe_finRange image.width, List.map_map]
    · rfl
    · rw [Filter.pixel_brightness]
      split_ifs with bright <;> simp_all
  · refine List.flatMap_congr fun x _ => congrArg _ (List.filter_congr fun y _ => ?_)
    rw [Filter.pixel_brightness]
    split_ifs with bright <;> simp only [bright, decide_True, decide_False]
    exact decide_eq_false (by linarith)

end Image

end Feagi.Vision
