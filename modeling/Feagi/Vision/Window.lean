import Feagi.Vision.Python

/-!
# Images and the window of `Image.image_read_by_block`

An image is a two-dimensional numpy array with its shape, read only at positions inside it.
`image_read_by_block(image, kernel_size, [x, y])` copies the `kernel_size × kernel_size` window
centred on `(x, y)`, reading the image only where its four-sided guard holds and leaving `0`
where the window leaves the image, so a negative index never wraps around to the opposite edge.
-/

namespace Feagi.Vision

/-- A two-dimensional numpy array with its shape: `height` rows of `width` pixels. -/
@[ext] structure Image where
  rows : List (List ℚ)
  height : Nat
  width : Nat
  tall : rows.length = height
  rectangular : ∀ row ∈ rows, row.length = width

namespace Image

theorem length_row (image : Image) (x : Fin image.height) :
    (image.rows.get (x.cast image.tall.symm)).length = image.width :=
  image.rectangular _ (List.get_mem _ _ _)

/-- `image[x, y]`: only a position inside the image can be read. -/
def pixel (image : Image) (x : Fin image.height) (y : Fin image.width) : ℚ :=
  (image.rows.get (x.cast image.tall.symm)).get (y.cast (image.length_row x).symm)

/-- `Image.image_read_by_block`: an even size prints an error and returns `None`. -/
def imageReadByBlock (image : Image) (kernelSize : Nat) (seedCoordinates : Int × Int) :
    Option Matrix :=
  if kernelSize % 2 = 0 then none
  else
    let scanLength : Int := (kernelSize / 2 : Nat)
    some ((List.range kernelSize).map fun (a : Nat) => (List.range kernelSize).map fun (b : Nat) =>
      let i := seedCoordinates.1 - scanLength + (a : Int)
      let j := seedCoordinates.2 - scanLength + (b : Int)
      if inside : 0 ≤ i ∧ 0 ≤ j ∧ i < image.height ∧ j < image.width then
        image.pixel ⟨i.toNat, by omega⟩ ⟨j.toNat, by omega⟩
      else 0)

theorem imageReadByBlock_square (image : Image) {kernelSize : Nat} (odd : kernelSize % 2 = 1)
    (seedCoordinates : Int × Int) :
    ∃ kernelValues, image.imageReadByBlock kernelSize seedCoordinates = some kernelValues ∧
      IsSquare kernelSize kernelValues := by
  refine ⟨_, if_neg (by omega), by simp only [List.length_map, List.length_range], ?_⟩
  simp only [List.mem_map, List.mem_range]
  rintro _ ⟨a, -, rfl⟩
  simp only [List.length_map, List.length_range]

theorem getElem?_bind_of_lt (image : Image) {x y : Nat} (hx : x < image.height)
    (hy : y < image.width) : image.rows[x]?.bind (·[y]?) = some (image.pixel ⟨x, hx⟩ ⟨y, hy⟩) := by
  have row : x < image.rows.length := image.tall ▸ hx
  have col : y < image.rows[x].length := (image.rectangular _ (List.getElem_mem row)).symm ▸ hy
  simp [pixel, List.getElem?_eq_getElem row, List.getElem?_eq_getElem col]

/-- Entry `(a, b)` of the `kernelSize × kernelSize` window centred on `(x, y)`: the pixel at
`(x - kernelSize // 2 + a, y - kernelSize // 2 + b)` when it lies in the image, `0` otherwise. -/
def window (image : Image) (kernelSize : Nat) (x y : Int) (a b : Nat) : Option ℚ :=
  let i := x - (kernelSize / 2 : Nat) + a
  let j := y - (kernelSize / 2 : Nat) + b
  if 0 ≤ i ∧ i < image.height ∧ 0 ≤ j ∧ j < image.width then image.rows[i.toNat]?.bind (·[j.toNat]?)
  else some 0

theorem imageReadByBlock_window (image : Image) (kernelSize : Nat) (odd : kernelSize % 2 = 1)
    (x y : Int) :
    ∃ kernelValues, image.imageReadByBlock kernelSize (x, y) = some kernelValues ∧
      IsSquare kernelSize kernelValues ∧
      (∀ a < kernelSize, ∀ b < kernelSize,
        kernelValues[a]?.bind (·[b]?) = image.window kernelSize x y a b) ∧
      ∀ v ∈ kernelValues.flatten,
        v = 0 ∨ ∃ i < image.height, ∃ j < image.width, image.rows[i]?.bind (·[j]?) = some v := by
  obtain ⟨kernelValues, read, square⟩ := image.imageReadByBlock_square odd (x, y)
  refine ⟨kernelValues, read, square, fun a ha b hb => ?_, fun v mem => ?_⟩
  all_goals rw [imageReadByBlock, if_neg (by omega)] at read; cases read
  · simp only [List.getElem?_map, List.getElem?_range ha, List.getElem?_range hb, Option.map_some',
      Option.some_bind, window]
    split_ifs with read inside
    · rw [getElem?_bind_of_lt image (by omega) (by omega)]
    · omega
    · omega
    · rfl
  · obtain ⟨_, row, mem⟩ := List.mem_flatten.mp mem
    obtain ⟨a, -, rfl⟩ := List.mem_map.mp row
    obtain ⟨b, -, rfl⟩ := List.mem_map.mp mem
    dsimp only
    split_ifs with inside
    · exact .inr ⟨_, by omega, _, by omega, getElem?_bind_of_lt image (by omega) (by omega)⟩
    · exact .inl rfl

end Image

/-- Two rows of two pixels. -/
def cornerImage : Image := ⟨[[1, 2], [3, 4]], 2, 2, rfl, by decide⟩

theorem imageReadByBlock_window_of_corner :
    3 % 2 = 1 ∧
      ∃ kernelValues, cornerImage.imageReadByBlock 3 (0, 0) = some kernelValues ∧
        IsSquare 3 kernelValues ∧
        (∀ a < 3, ∀ b < 3, kernelValues[a]?.bind (·[b]?) = cornerImage.window 3 0 0 a b) ∧
        ∀ v ∈ kernelValues.flatten,
          v = 0 ∨ ∃ i < cornerImage.height, ∃ j < cornerImage.width,
            cornerImage.rows[i]?.bind (·[j]?) = some v :=
  ⟨rfl, Image.imageReadByBlock_window cornerImage 3 rfl 0 0⟩

/-- At the top-left corner the row and column `-1` read `0`, not the last row or column. -/
example : cornerImage.imageReadByBlock 3 (0, 0) = some [[0, 0, 0], [0, 1, 2], [0, 3, 4]] := by
  decide

end Feagi.Vision
