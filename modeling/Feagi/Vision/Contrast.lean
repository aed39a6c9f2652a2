import Feagi.Vision.Rows

/-!
# The normalisation of `Filter.contrast`

`Filter.contrast` computes one value per pixel with `Kernel.kernel_contrast` (the response of
the window to the `'o'` filter, clamped at `0`), truncates the values to `int64` with
`np.asarray(..., dtype=np.int)`, and maps each value `v` to `floor(v * 255 / image_max_value)`,
an `int64` product and a float64 quotient. While every value stays below `2 ^ 44` the product
does not wrap and the floor is the integer quotient; when `image_max_value` is `0` numpy
computes `0 * 255 / 0` as `nan`, on which `floor` raises.
-/

namespace Feagi.Vision

/-- Cell `(x, y)` before normalisation: the response of the window at `(x, y)` to the `'o'`
filter, clamped at `0` and truncated to an integer. -/
def contrastCell (oFilter : Matrix) (image : Image) (kernelSize x y : Nat) : Int :=
  let value := response kernelSize ((image.imageReadByBlock kernelSize (x, y)).getD []) oFilter
  ⌊if value < 0 then 0 else value⌋

def contrastCells (oFilter : Matrix) (image : Image) (kernelSize : Nat) : List (List Int) :=
  (List.range image.height).map fun (x : Nat) => (List.range image.width).map fun (y : Nat) =>
    contrastCell oFilter image kernelSize x y

theorem clamp_nonneg (value : ℚ) : 0 ≤ if value < 0 then 0 else value := by
  split_ifs with negative
  exacts [le_rfl, not_lt.mp negative]

theorem contrastCell_nonneg (oFilter : Matrix) (image : Image) (kernelSize x y : Nat) :
    0 ≤ contrastCell oFilter image kernelSize x y :=
  Int.floor_nonneg.mpr (clamp_nonneg _)

theorem mem_contrastCells {oFilter : Matrix} {image : Image} {kernelSize : Nat} {v : Int} :
    v ∈ (contrastCells oFilter image kernelSize).flatten ↔
      ∃ x < image.height, ∃ y < image.width, contrastCell oFilter image kernelSize x y = v := by
  simp [contrastCells, List.mem_flatten]

theorem nonneg_of_mem_contrastCells {oFilter : Matrix} {image : Image} {kernelSize : Nat} {v : Int}
    (mem : v ∈ (contrastCells oFilter image kernelSize).flatten) : 0 ≤ v := by
  obtain ⟨x, -, y, -, rfl⟩ := mem_contrastCells.mp mem
  exact contrastCell_nonneg oFilter image kernelSize x y

theorem length_of_mem_contrastCells {oFilter : Matrix} {image : Image} {kernelSize : Nat}
    {row : List Int} (mem : row ∈ contrastCells oFilter image kernelSize) :
    row.length = image.width := by
  obtain ⟨x, -, rfl⟩ := List.mem_map.mp mem
  simp

/-- Below `2 ^ 44` the `int64` product does not wrap and the float64 quotient floors to the
integer quotient. -/
theorem normalizedValue_of_le {v imageMaxValue : Int} (nonneg : 0 ≤ v) (le : v ≤ imageMaxValue)
    (positive : 0 < imageMaxValue) (bound : imageMaxValue < 2 ^ 44) :
    Filter.normalizedValue v imageMaxValue = .ok (v * 255 / imageMaxValue) := by
  have product : wrapInt64 (v * 255) = v * 255 := wrapInt64_of_lt (by omega) (by omega)
  have exact : float64 ((v * 255 : Int) : ℚ) = ((v * 255 : Int) : ℚ) := float64_intCast (by omega)
  have exact_max : float64 (imageMaxValue : ℚ) = imageMaxValue := float64_intCast (by omega)
  simp only [Filter.normalizedValue, product, if_neg positive.ne', exact, exact_max]
  rw [floor_float64_div (by omega) (by omega) positive bound]

theorem normalized_bounds {v imageMaxValue : Int} (nonneg : 0 ≤ v) (le : v ≤ imageMaxValue)
    (positive : 0 < imageMaxValue) : 0 ≤ v * 255 / imageMaxValue ∧ v * 255 / imageMaxValue ≤ 255 := by
  refine ⟨Int.ediv_nonneg (by omega) positive.le, ?_⟩
  calc v * 255 / imageMaxValue ≤ imageMaxValue * 255 / imageMaxValue :=
        Int.ediv_le_ediv positive (by omega)
    _ = 255 := Int.mul_ediv_cancel_left 255 positive.ne'

section Square

variable (ipuVisionFilters : Dict (Dict Matrix)) (image : Image) {k : Nat} {bank : Dict Matrix}
  {oFilter : Matrix} (square : image.height = image.width) (odd : k % 2 = 1)
  (found : ipuVisionFilters.get? (toString k) = some bank) (named : bank.get? "o" = some oFilter)
  (shape : IsSquare k oFilter)
include square odd found named shape

/-- The first loop of `contrast`: the clamped responses, before `np.asarray`. -/
theorem contrastValues_of_square :
    fillRows (fun rowIndex colIndex _ => Kernel.contrastAt ipuVisionFilters image k rowIndex colIndex)
      image.width image.rows =
      .ok ((List.range image.height).map fun (x : Nat) => (List.range image.width).map
        fun (y : Nat) =>
          let value := response k ((image.imageReadByBlock k (x, y)).getD []) oFilter
          if value < 0 then 0 else value) := by
  rw [fillRows_of_le _ (image.tall.trans square).le,
    cellValues_of_rectangular (Kernel.contrastAt ipuVisionFilters image k)]
  rw [mapM_congr (g := fun (x : Nat) => (List.range image.width).mapM fun (y : Nat) => .ok
      (let value := response k ((image.imageReadByBlock k (x, y)).getD []) oFilter
      if value < 0 then 0 else value)) fun x _ => mapM_congr fun y _ => by
    obtain ⟨kernelValues, window, window_square⟩ := image.imageReadByBlock_square odd (x, y)
    simp only [Kernel.contrastAt, window, kernelContrast_of_square found named window_square shape,
      Option.getD_some]]
  simp only [mapM_pure, map_ok, ← square, image.tall, Nat.sub_self, List.replicate_zero,
    List.append_nil]

theorem contrast_of_square (nonempty : 0 < image.height)
    (bounded : ∀ v ∈ (contrastCells oFilter image k).flatten, v < 2 ^ 44) :
    ∃ imageMaxValue, (∀ v ∈ (contrastCells oFilter image k).flatten, v ≤ imageMaxValue) ∧
      imageMaxValue ∈ (contrastCells oFilter image k).flatten ∧
      Filter.contrast ipuVisionFilters image k =
        if imageMaxValue = 0 then .error .valueError
        else .ok (some ((contrastCells oFilter image k).map (·.map fun v =>
          v * 255 / imageMaxValue))) := by
  have rows_nonempty : contrastCells oFilter image k ≠ [] := by
    simpa [contrastCells, List.range_eq_nil] using nonempty.ne'
  have cells_nonempty : (contrastCells oFilter image k).flatten ≠ [] := fun empty =>
    List.not_mem_nil _ (empty ▸ mem_contrastCells.mpr ⟨0, nonempty, 0, square ▸ nonempty, rfl⟩)
  obtain ⟨imageMaxValue, amax, le, mem⟩ := npAmax_spec cells_nonempty
  refine ⟨imageMaxValue, le, mem, ?_⟩
  have truncated : ((List.range image.height).map fun (x : Nat) => (List.range image.width).map
      fun (y : Nat) =>
        let value := response k ((image.imageReadByBlock k (x, y)).getD []) oFilter
        if value < 0 then 0 else value).map (·.map npInt) = contrastCells oFilter image k := by
    simp only [List.map_map, contrastCells]
    refine List.map_congr_left fun x hx => ?_
    simp only [Function.comp_apply, List.map_map]
    refine List.map_congr_left fun y hy => npInt_of_nonneg (clamp_nonneg _) ?_
    exact (bounded _ (mem_contrastCells.mpr
      ⟨x, List.mem_range.mp hx, y, List.mem_range.mp hy, rfl⟩)).trans (by norm_num)
  obtain ⟨first, rest, cells⟩ := List.exists_cons_of_ne_nil rows_nonempty
  have first_length : first.length = image.width :=
    length_of_mem_contrastCells (cells ▸ List.mem_cons_self first rest)
  have shape1 : npShape1 (contrastCells oFilter image k) = .ok image.width := by
    rw [cells, npShape1, first_length]
  unfold Filter.contrast
  rw [if_neg (by omega), contrastValues_of_square ipuVisionFilters image square odd found named shape,
    ok_bind, npAsarray_of_rectangular image.width (by simp), ok_bind]
  dsimp only
  rw [truncated, amax, ok_bind, shape1, ok_bind,
    fillRows_of_le _ (by simp [contrastCells, square])]
  split_ifs with zero
  · subst zero
    obtain ⟨cell, row, first_cells⟩ :=
      List.exists_cons_of_ne_nil (List.ne_nil_of_length_pos (first_length ▸ square ▸ nonempty))
    have cell_mem : cell ∈ (contrastCells oFilter image k).flatten := by simp [cells, first_cells]
    have cell_zero : cell = 0 := le_antisymm (le cell cell_mem) (nonneg_of_mem_contrastCells cell_mem)
    have failing : Filter.normalizedValue cell 0 = .error .valueError := by
      simp [Filter.normalizedValue, cell_zero, wrapInt64]
    rw [cells, first_cells, cellValues_error_of_first _ failing]
    rfl
  · have positive : 0 < imageMaxValue := lt_of_le_of_ne (nonneg_of_mem_contrastCells mem) (Ne.symm zero)
    rw [cellValues_congr _ (fun _ _ rowItem => .ok (rowItem * 255 / imageMaxValue))
      fun row row_mem v v_mem _ _ => by
        have cell := List.mem_flatten.mpr ⟨row, row_mem, v_mem⟩
        exact normalizedValue_of_le (nonneg_of_mem_contrastCells cell) (le v cell) positive
          (bounded _ mem),
      cellValues_pure]
    simp [contrastCells, square]

end Square

/-- A blank `1 × 1` image. -/
def blankImage : Image := ⟨[[0]], 1, 1, rfl, by decide⟩

def oBank : Dict Matrix := ⟨[("o", [[1]])], by decide⟩

def oFilters : Dict (Dict Matrix) := ⟨[("1", oBank)], by decide⟩

theorem contrastCell_blank : contrastCell [[1]] blankImage 1 0 0 = 0 := by
  simp [contrastCell, Image.imageReadByBlock, response, blankImage, Image.pixel, List.range_succ]

theorem contrastCell_blank_lt {x y : Nat} (hx : x < blankImage.height) (hy : y < blankImage.width) :
    contrastCell [[1]] blankImage 1 x y < 2 ^ 44 := by
  obtain ⟨rfl, rfl⟩ : x = 0 ∧ y = 0 := ⟨Nat.lt_one_iff.mp hx, Nat.lt_one_iff.mp hy⟩
  rw [contrastCell_blank]
  norm_num

end Feagi.Vision
