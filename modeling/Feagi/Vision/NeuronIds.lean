import Feagi.Vision.Rows
import Mathlib.Data.List.GetD

/-!
# From an image to the neuron ids of a cortical area

`read_from_mnist` turns an image into fire-list entries for each vision area `a` by
`convert_image_locations_to_neuron_ids(convert_direction_matrix_to_coordinates(
create_direction_matrix(image, k, s)), a)`: the positions whose direction is the area's
sensitivity `s`, then the ids of `block_dic[a]` at these positions, without `None` and without
repeats.
-/

namespace Feagi.Vision

/-- `str(x) + '-' + str(y) + '-' + str(z)`. -/
def blockReference (x y z : Nat) : String := toString x ++ "-" ++ toString y ++ "-" ++ toString z

/-- `if neuron_id_list.count(item) == 0: neuron_id_list.append(item)`. -/
def addId (neuronIdList : List String) (id : String) : List String :=
  if neuronIdList.count id = 0 then neuronIdList ++ [id] else neuronIdList

/-- `if (item is not None) and (neuron_id_list.count(item) == 0): neuron_id_list.append(item)`. -/
def addNeuron (neuronIdList : List String) : Option String → List String
  | some id => addId neuronIdList id
  | none => neuronIdList

namespace Image

/-- `Image.convert_direction_matrix_to_coordinates`: `[x, y, 0]` for each entry other than `''`,
row by row. -/
def convertDirectionMatrixToCoordinates (image : List (List String)) : List (Nat × Nat × Nat) :=
  image.enum.flatMap fun row =>
    ((row.2.enum.filter fun column => column.2 ≠ "").map fun column => (row.1, column.1, 0))

/-- `Image.convert_image_locations_to_neuron_ids`: `block_dic[cortical_area]` is read once per
location, so an unknown area raises only when there is a location. -/
def convertImageLocationsToNeuronIds (blockDic : Dict (Dict (List (Option String))))
    (imageLocations : List (Nat × Nat × Nat)) (corticalArea : String) :
    Except PyException (List String) :=
  imageLocations.foldlM (fun neuronIdList location => do
    let blocks ← blockDic.get corticalArea
    match blocks.get? (blockReference location.1 location.2.1 location.2.2) with
    | some neuronList => .ok (neuronList.foldl addNeuron neuronIdList)
    | none => .ok neuronIdList) []

end Image

/-- The neuron ids `read_from_mnist` fires for area `a` with sensitivity `s`; iterating the
`None` that `create_direction_matrix` returns for an even size raises `TypeError`. -/
def directionNeuronIds (ipuVisionFilters : Dict (Dict Matrix))
    (blockDic : Dict (Dict (List (Option String)))) (image : Image) (kernelSize : Nat)
    (directionSensitivity corticalArea : String) : Except PyException (List String) := do
  match ← Kernel.createDirectionMatrix ipuVisionFilters image kernelSize directionSensitivity with
  | some polarizedImage =>
    Image.convertImageLocationsToNeuronIds blockDic
      (Image.convertDirectionMatrixToCoordinates polarizedImage) corticalArea
  | none => .error .typeError

/-- The ids of the positions whose direction is `directionSensitivity` (every position when it
is `''`), walked in row-major order: the blocks of `blocks` at the kept positions, concatenated,
with `None` and every repeat removed. -/
def keptNeuronIds (ipuVisionFilters : Dict (Dict Matrix)) (blocks : Dict (List (Option String)))
    (image : Image) (kernelSize : Nat) (directionSensitivity : String) :
    Except PyException (List String) := do
  let directions ← (List.range image.height).mapM fun x => (List.range image.width).mapM fun y =>
    Kernel.directionAt ipuVisionFilters image kernelSize x y
  let kept (x y : Nat) : Bool :=
    (directions.getD x []).getD y "" = directionSensitivity ∨ directionSensitivity = ""
  .ok (((List.range image.height).flatMap fun x => ((List.range image.width).filter (kept x)).flatMap
    fun y => (blocks.get? (blockReference x y 0)).getD []).reduceOption.eraseDups)

/-! ## Removing repeats -/

theorem foldl_addNeuron :
    ∀ (items : List (Option String)) (acc : List String),
      items.foldl addNeuron acc = items.reduceOption.foldl addId acc
  | [], _ => rfl
  | none :: items, acc => by
    rw [List.reduceOption_cons_of_none, List.foldl_cons]
    exact foldl_addNeuron items acc
  | some id :: items, acc => by
    rw [List.reduceOption_cons_of_some, List.foldl_cons, List.foldl_cons]
    exact foldl_addNeuron items _

theorem foldl_addNeuron_nil (items : List (Option String)) :
    items.foldl addNeuron [] = items.reduceOption.eraseDups := by
  rw [foldl_addNeuron, List.eraseDups, eraseDups_loop_eq_foldl]
  rfl

/-! ## The pipeline on a square image -/

theorem foldl_flatMap {α β γ : Type} (f : α → List β) (g : γ → β → γ) :
    ∀ (l : List α) (init : γ), (l.flatMap f).foldl g init = l.foldl (fun acc a => (f a).foldl g acc) init
  | [], _ => rfl
  | a :: l, init => by rw [List.flatMap_cons, List.foldl_append, foldl_flatMap f g l]; rfl

theorem convertImageLocationsToNeuronIds_of_found {blockDic : Dict (Dict (List (Option String)))}
    {corticalArea : String} {blocks : Dict (List (Option String))}
    (found : blockDic.get? corticalArea = some blocks) (imageLocations : List (Nat × Nat × Nat)) :
    Image.convertImageLocationsToNeuronIds blockDic imageLocations corticalArea =
      .ok ((imageLocations.flatMap fun location =>
        (blocks.get? (blockReference location.1 location.2.1 location.2.2)).getD []).reduceOption.eraseDups) := by
  rw [Image.convertImageLocationsToNeuronIds, foldlM_eq_ok (fun neuronIdList location =>
    ((blocks.get? (blockReference location.1 location.2.1 location.2.2)).getD []).foldl addNeuron
      neuronIdList) fun neuronIdList location => ?_, ← foldl_flatMap, foldl_addNeuron_nil]
  rw [Dict.get_of_get? found, ok_bind]
  split <;> simp_all

theorem enum_eq_map_range {α : Type} (l : List α) (d : α) :
    l.enum = (List.range l.length).map fun i => (i, l.getD i d) := by
  refine List.ext_getElem (by simp) fun i h₁ _ => ?_
  have h : i < l.length := by simpa using h₁
  simp [List.getElem?_eq_getElem h]

theorem convertDirectionMatrixToCoordinates_eq (image : List (List String)) :
    Image.convertDirectionMatrixToCoordinates image =
      (List.range image.length).flatMap fun x =>
        ((List.range (image.getD x []).length).filter fun y => (image.getD x []).getD y "" ≠ "").map
          fun y => (x, y, 0) := by
  unfold Image.convertDirectionMatrixToCoordinates
  rw [enum_eq_map_range image [], List.flatMap_map]
  refine List.flatMap_congr fun x _ => ?_
  rw [enum_eq_map_range _ "", List.filter_map, List.map_map]
  rfl

theorem getD_map_of_lt {α β : Type} (f : α → β) {l : List α} {i : Nat} (h : i < l.length) (d : α)
    (d' : β) : (l.map f).getD i d' = f (l.getD i d) := by
  simp [List.getElem?_eq_getElem h, List.getElem?_eq_getElem (by simpa using h : i < (l.map f).length)]

theorem directionAt_ne_empty {ipuVisionFilters : Dict (Dict Matrix)} {image : Image} {k x y : Nat}
    {d : String} (odd : k % 2 = 1)
    (named : ∀ bank, ipuVisionFilters.get? (toString k) = some bank → ∀ key ∈ bank.keys, key ≠ "")
    (ok : Kernel.directionAt ipuVisionFilters image k x y = .ok d) : d ≠ "" := by
  obtain ⟨kernelValues, window, square⟩ := image.imageReadByBlock_square odd (x, y)
  simp only [Kernel.directionAt, window] at ok
  obtain ⟨bank, got, mem⟩ := kernelDirection_mem_keys ok
  exact named bank (square.1 ▸ got) d mem

theorem keptNeuronIds_nodup {ipuVisionFilters : Dict (Dict Matrix)} {blocks : Dict (List (Option String))}
    {image : Image} {k : Nat} {directionSensitivity : String} {ids : List String}
    (ok : keptNeuronIds ipuVisionFilters blocks image k directionSensitivity = .ok ids) : ids.Nodup := by
  obtain ⟨directions, -, ok⟩ := bind_eq_ok ok
  cases ok
  exact nodup_eraseDups _

theorem directionNeuronIds_eq_kept (ipuVisionFilters : Dict (Dict Matrix))
    (blockDic : Dict (Dict (List (Option String)))) (image : Image) (k : Nat)
    (directionSensitivity corticalArea : String) (blocks : Dict (List (Option String)))
    (square : image.height = image.width) (odd : k % 2 = 1)
    (named : ∀ bank, ipuVisionFilters.get? (toString k) = some bank → ∀ key ∈ bank.keys, key ≠ "")
    (found : blockDic.get? corticalArea = some blocks) :
    directionNeuronIds ipuVisionFilters blockDic image k directionSensitivity corticalArea =
        keptNeuronIds ipuVisionFilters blocks image k directionSensitivity ∧
      ∀ ids, directionNeuronIds ipuVisionFilters blockDic image k directionSensitivity corticalArea =
        .ok ids → ids.Nodup := by
  have same : directionNeuronIds ipuVisionFilters blockDic image k directionSensitivity corticalArea =
      keptNeuronIds ipuVisionFilters blocks image k directionSensitivity := by
    rw [directionNeuronIds, createDirectionMatrix_of_square ipuVisionFilters image directionSensitivity
      odd square, keptNeuronIds]
    simp only [mapM_map_result, bind_map_left, convertImageLocationsToNeuronIds_of_found found]
    refine bind_congr_ok fun directions ok => ?_
    have rows : ∀ x < image.height, (directions.getD x []).length = image.width ∧
        ∀ y < image.width, (directions.getD x []).getD y "" ≠ "" := by
      intro x hx
      have row_ok := mapM_ok_getElem [] ok x (by simpa using hx)
      simp only [List.getElem_range] at row_ok
      refine ⟨by simpa using mapM_ok_length row_ok, fun y hy => ?_⟩
      have cell_ok := mapM_ok_getElem "" row_ok y (by simpa using hy)
      exact directionAt_ne_empty odd named (by simpa using cell_ok)
    congr 3
    rw [convertDirectionMatrixToCoordinates_eq, List.flatMap_assoc, List.length_map,
      mapM_ok_length ok, List.length_range]
    refine List.flatMap_congr fun x x_mem => ?_
    obtain ⟨width, filled⟩ := rows x (List.mem_range.mp x_mem)
    rw [getD_map_of_lt _ (by simpa [mapM_ok_length ok] using List.mem_range.mp x_mem) [] [],
      List.length_map, width, List.flatMap_map]
    congr 1
    refine List.filter_congr fun y y_mem => ?_
    rw [getD_map_of_lt _ (width ▸ List.mem_range.mp y_mem) "" ""]
    have := filled y (List.mem_range.mp y_mem)
    split_ifs <;> simp_all
  exact ⟨same, fun ids ok => keptNeuronIds_nodup (same ▸ ok)⟩

/-- With the `1 × 1` filters `[[1]]` for `'-'` and `[[-1]]` for `'|'`, a positive pixel reads
`'-'` and a negative one `'|'`. -/
def signBank : Dict Matrix := ⟨[("-", [[1]]), ("|", [[-1]])], by decide⟩

def signFilters : Dict (Dict Matrix) := ⟨[("1", signBank)], by decide⟩

/-- A `2 × 2` checkerboard: the sensitivity `'-'` keeps the diagonal. -/
def checkerImage : Image := ⟨[[1, -1], [-1, 1]], 2, 2, rfl, by decide⟩

/-- Blocks at both kept positions and at a dropped one, with a `None` and an id shared by two. -/
def checkerBlocks : Dict (List (Option String)) :=
  ⟨[("0-0-0", [some "n1", none]), ("0-1-0", [some "n2"]), ("1-1-0", [some "n1", some "n3"])],
    by decide⟩

def visionBlockDic : Dict (Dict (List (Option String))) := ⟨[("vision_v1", checkerBlocks)], by decide⟩

theorem directionNeuronIds_eq_kept_of_checker :
    checkerImage.height = checkerImage.width ∧ 1 % 2 = 1 ∧
      (∀ bank, signFilters.get? (toString 1) = some bank → ∀ key ∈ bank.keys, key ≠ "") ∧
      visionBlockDic.get? "vision_v1" = some checkerBlocks ∧
      (directionNeuronIds signFilters visionBlockDic checkerImage 1 "-" "vision_v1" =
          keptNeuronIds signFilters checkerBlocks checkerImage 1 "-" ∧
        ∀ ids, directionNeuronIds signFilters visionBlockDic checkerImage 1 "-" "vision_v1" = .ok ids →
          ids.Nodup) :=
  have named : ∀ bank, signFilters.get? (toString 1) = some bank → ∀ key ∈ bank.keys, key ≠ "" :=
    fun bank got => by
      obtain rfl : signBank = bank := Option.some.inj got
      decide
  ⟨rfl, rfl, named, rfl, directionNeuronIds_eq_kept signFilters visionBlockDic checkerImage 1 "-"
    "vision_v1" checkerBlocks rfl rfl named rfl⟩

end Feagi.Vision
