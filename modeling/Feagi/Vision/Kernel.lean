import Feagi.Vision.Window

/-!
# Direction and contrast of a kernel

`Kernel.kernel_direction` applies each filter of the bank for the kernel's size,
`IPU_vision_filters[str(kernel_size)]`, with `Filter.direction`, sums each product with
`np.sum`, takes `max` of the sums and returns the key at the first index holding it.
`Kernel.kernel_contrast` applies the `'o'` filter the same way and clamps the sum at `0`.
-/

namespace Feagi.Vision

/-- `Σ i j, kernel[i][j] · filter[i][j]` over a `size × size` window. -/
def response (size : Nat) (kernelValues filter : Matrix) : ℚ :=
  ((List.range size).map fun i => ((List.range size).map fun j =>
    (kernelValues.getD i []).getD j 0 * (filter.getD i []).getD j 0).sum).sum

namespace Filter

/-- `Filter.direction`: the entrywise product of the kernel with the filter
`IPU_vision_filters[str(kernel_size)][direction_key]`. -/
def direction (ipuVisionFilters : Dict (Dict Matrix)) (kernelValues : Matrix) (kernelSize : Nat)
    (directionKey : String) : Except PyException Matrix := do
  let filterValue ← (← ipuVisionFilters.get (toString kernelSize)).get directionKey
  (List.range kernelSize).mapM fun i => (List.range kernelSize).mapM fun ii => do
    let kernelValue ← pyIndex (← pyIndex kernelValues i) ii
    let filterEntry ← pyIndex (← pyIndex filterValue i) ii
    pure (kernelValue * filterEntry)

end Filter

namespace Kernel

/-- `Kernel.kernel_sizer`: the number of rows; an even number prints an error and gives `None`. -/
def kernelSizer (kernelValues : Matrix) : Option Nat :=
  if kernelValues.length % 2 = 0 then none else some kernelValues.length

/-- `Kernel.kernel_direction`. For a `None` size, `str(None)` indexes the filters, and then an
empty bank leaves nothing to take the maximum of, while a non-empty one reaches
`np.zeros((None, None))`. -/
def kernelDirection (ipuVisionFilters : Dict (Dict Matrix)) (kernelValues : Matrix) :
    Except PyException String :=
  match kernelSizer kernelValues with
  | none => do
    let bank ← ipuVisionFilters.get "None"
    if bank.keys.isEmpty then .error .indexError else .error .typeError
  | some kernelSize => do
    let bank ← ipuVisionFilters.get (toString kernelSize)
    let endResult ← bank.keys.mapM fun filterEntry =>
      (filterEntry, ·) <$> Filter.direction ipuVisionFilters kernelValues kernelSize filterEntry
    let tmpArray := endResult.map fun entry => (entry.1, npSum entry.2)
    -- `list(zip(*tmpArray))[1]`, then `.index(maxValue)` and `tmpArray[maxValueIndex][0]`
    match tmpArray.map (·.2) with
    | [] => .error .indexError
    | first :: rest =>
      match tmpArray.find? (·.2 = pyMax first rest) with
      | some entry => .ok entry.1
      | none => .error .valueError

/-- `self.kernel_direction(Image.image_read_by_block(image, kernel_size, [x, y]))`; on `None`,
`np.shape(None)[0]` raises `IndexError`. -/
def directionAt (ipuVisionFilters : Dict (Dict Matrix)) (image : Image) (kernelSize x y : Nat) :
    Except PyException String :=
  match image.imageReadByBlock kernelSize (x, y) with
  | some kernelValues => kernelDirection ipuVisionFilters kernelValues
  | none => .error .indexError

/-- `Kernel.kernel_contrast`. -/
def kernelContrast (ipuVisionFilters : Dict (Dict Matrix)) (kernelValues : Matrix)
    (kernelSize : Nat) : Except PyException ℚ := do
  let filteredKernel ← Filter.direction ipuVisionFilters kernelValues kernelSize "o"
  let contrastValue := npSum filteredKernel
  pure (if contrastValue < 0 then 0 else contrastValue)

/-- `Kernel.kernel_contrast(Image.image_read_by_block(image, kernel_size, [x, y]), kernel_size)`;
on `None`, `Filter.direction` fails indexing it. -/
def contrastAt (ipuVisionFilters : Dict (Dict Matrix)) (image : Image) (kernelSize x y : Nat) :
    Except PyException ℚ :=
  match image.imageReadByBlock kernelSize (x, y) with
  | some kernelValues => kernelContrast ipuVisionFilters kernelValues kernelSize
  | none => .error .typeError

end Kernel

/-! ## Sums and the maximum -/

theorem foldl_add (row : List ℚ) (total : ℚ) : row.foldl (· + ·) total = total + row.sum := by
  induction row generalizing total with
  | nil => simp
  | cons v row ih => simp [ih, add_assoc]

theorem npSum_eq (m : Matrix) : npSum m = (m.map List.sum).sum := by
  suffices ∀ total : ℚ, m.foldl (fun total row => total + row.sum) total =
      total + (m.map List.sum).sum by simpa [npSum, foldl_add] using this 0
  induction m with
  | nil => simp
  | cons row m ih => intro total; simp [ih, add_assoc]

theorem find?_pyMax {α : Type} (l : List (α × ℚ)) {first : ℚ} {rest : List ℚ}
    (sums : l.map (·.2) = first :: rest) :
    l.find? (fun e => e.2 = pyMax first rest) = l.find? (fun e => l.all fun o => o.2 ≤ e.2) := by
  refine find?_congr fun e mem => ?_
  have bound : ∀ o ∈ l, o.2 ≤ pyMax first rest := fun o o_mem =>
    le_pyMax first rest o.2 (sums ▸ List.mem_map_of_mem _ o_mem)
  obtain ⟨top, top_mem, top_eq⟩ := List.mem_map.mp (sums ▸ pyMax_mem first rest)
  rw [Bool.eq_iff_iff]
  simp only [decide_eq_true_eq, List.all_eq_true]
  exact ⟨fun e_eq o o_mem => e_eq ▸ bound o o_mem,
    fun above => le_antisymm (bound e mem) (top_eq ▸ above top top_mem)⟩

/-! ## `kernel_direction` on a square kernel -/

theorem pyIndex_pyIndex {m : List (List ℚ)} {k i j : Nat} (square : IsSquare k m) (hi : i < k)
    (hj : j < k) : (pyIndex m i >>= fun row => pyIndex row j) = .ok ((m.getD i []).getD j 0) := by
  obtain ⟨rows, cols⟩ := square
  have hi' : i < m.length := rows ▸ hi
  have hj' : j < m[i].length := (cols _ (List.getElem_mem hi')) ▸ hj
  simp [pyIndex_of_lt hi', pyIndex_of_lt hj', List.getElem?_eq_getElem hi',
    List.getElem?_eq_getElem hj']

theorem direction_of_square {ipuVisionFilters : Dict (Dict Matrix)} {kernelValues filter : Matrix}
    {k : Nat} {bank : Dict Matrix} {key : String}
    (found : ipuVisionFilters.get? (toString k) = some bank) (named : bank.get? key = some filter)
    (kernel : IsSquare k kernelValues) (shape : IsSquare k filter) :
    Filter.direction ipuVisionFilters kernelValues k key =
      .ok ((List.range k).map fun i => (List.range k).map fun j =>
        (kernelValues.getD i []).getD j 0 * (filter.getD i []).getD j 0) := by
  simp only [Filter.direction, Dict.get_of_get? found, Dict.get_of_get? named, ok_bind]
  rw [mapM_congr fun i hi => mapM_congr fun j hj => by
    rw [← bind_assoc, pyIndex_pyIndex kernel (List.mem_range.mp hi) (List.mem_range.mp hj), ok_bind,
      ← bind_assoc, pyIndex_pyIndex shape (List.mem_range.mp hi) (List.mem_range.mp hj), ok_bind]]
  simp only [pure_eq_ok, mapM_pure]

theorem npSum_direction (k : Nat) (kernelValues filter : Matrix) :
    npSum ((List.range k).map fun i => (List.range k).map fun j =>
      (kernelValues.getD i []).getD j 0 * (filter.getD i []).getD j 0) =
      response k kernelValues filter := by
  rw [npSum_eq, List.map_map]
  rfl

theorem kernelContrast_of_square {ipuVisionFilters : Dict (Dict Matrix)}
    {kernelValues oFilter : Matrix} {k : Nat} {bank : Dict Matrix}
    (found : ipuVisionFilters.get? (toString k) = some bank) (named : bank.get? "o" = some oFilter)
    (kernel : IsSquare k kernelValues) (shape : IsSquare k oFilter) :
    Kernel.kernelContrast ipuVisionFilters kernelValues k =
      .ok (if response k kernelValues oFilter < 0 then 0 else response k kernelValues oFilter) := by
  simp only [Kernel.kernelContrast, direction_of_square found named kernel shape, ok_bind,
    npSum_direction, pure_eq_ok]

theorem kernelSizer_of_square {kernelValues : Matrix} {k : Nat} (odd : k % 2 = 1)
    (kernel : IsSquare k kernelValues) : Kernel.kernelSizer kernelValues = some k := by
  simp [Kernel.kernelSizer, kernel.1, odd]

theorem kernelDirection_of_square (ipuVisionFilters : Dict (Dict Matrix)) {kernelValues : Matrix}
    {k : Nat} {bank : Dict Matrix} (odd : k % 2 = 1) (kernel : IsSquare k kernelValues)
    (found : ipuVisionFilters.get? (toString k) = some bank)
    (filters : ∀ entry ∈ bank.entries, IsSquare k entry.2) :
    Kernel.kernelDirection ipuVisionFilters kernelValues =
      let scored := bank.entries.map fun entry => (entry.1, response k kernelValues entry.2)
      match scored.map (·.2) with
      | [] => .error .indexError
      | first :: rest =>
        match scored.find? (·.2 = pyMax first rest) with
        | some entry => .ok entry.1
        | none => .error .valueError := by
  have scores : bank.keys.mapM (fun filterEntry => (filterEntry, ·) <$>
      Filter.direction ipuVisionFilters kernelValues k filterEntry) =
      .ok (bank.entries.map fun entry => (entry.1, (List.range k).map fun i => (List.range k).map
        fun j => (kernelValues.getD i []).getD j 0 * (entry.2.getD i []).getD j 0)) := by
    rw [Dict.keys, mapM_map_arg, mapM_congr fun entry mem => by
      rw [direction_of_square found (Dict.get?_of_mem mem) kernel (filters entry mem), map_ok]]
    exact mapM_pure _ _
  simp only [Kernel.kernelDirection, kernelSizer_of_square odd kernel, Dict.get_of_get? found,
    ok_bind, scores, List.map_map]
  simp only [Function.comp_def, npSum_direction]

theorem kernelDirection_first_maximal (ipuVisionFilters : Dict (Dict Matrix))
    (kernelValues : Matrix) (k : Nat) (bank : Dict Matrix) (odd : k % 2 = 1)
    (kernel : IsSquare k kernelValues) (found : ipuVisionFilters.get? (toString k) = some bank)
    (nonempty : bank.entries ≠ []) (filters : ∀ entry ∈ bank.entries, IsSquare k entry.2) :
    ∃ d, (bank.entries.find? fun entry => bank.entries.all fun other =>
        response k kernelValues other.2 ≤ response k kernelValues entry.2).map Prod.fst = some d ∧
      Kernel.kernelDirection ipuVisionFilters kernelValues = .ok d := by
  rw [kernelDirection_of_square ipuVisionFilters odd kernel found filters]
  generalize scored_def : bank.entries.map (fun entry => (entry.1, response k kernelValues entry.2)) =
    scored
  obtain ⟨first, rest, sums⟩ : ∃ first rest, scored.map (·.2) = first :: rest :=
    List.exists_cons_of_ne_nil (by simpa [← scored_def] using nonempty)
  have spec : (bank.entries.find? fun entry => bank.entries.all fun other =>
      response k kernelValues other.2 ≤ response k kernelValues entry.2).map Prod.fst =
      (scored.find? fun e => e.2 = pyMax first rest).map Prod.fst := by
    rw [find?_pyMax scored sums, ← scored_def, List.find?_map, Option.map_map]
    simp only [Function.comp_def, all_map_apply]
  obtain ⟨top, top_mem, top_eq⟩ := List.mem_map.mp (sums ▸ pyMax_mem first rest)
  have attained : (scored.find? fun e => e.2 = pyMax first rest).isSome :=
    List.find?_isSome.mpr ⟨top, top_mem, decide_eq_true top_eq⟩
  obtain ⟨entry, picked⟩ := Option.isSome_iff_exists.mp attained
  exact ⟨entry.1, by rw [spec, picked]; rfl, by simp only [sums, picked]⟩

/-- Two filters that give every `1 × 1` kernel the same response. -/
def tiedBank : Dict Matrix := ⟨[("-", [[1]]), ("|", [[1]])], by decide⟩

def tiedFilters : Dict (Dict Matrix) := ⟨[("1", tiedBank)], by decide⟩

theorem kernelDirection_first_maximal_of_tie :
    1 % 2 = 1 ∧ IsSquare 1 [[(2 : ℚ)]] ∧ tiedFilters.get? (toString 1) = some tiedBank ∧
      tiedBank.entries ≠ [] ∧ (∀ entry ∈ tiedBank.entries, IsSquare 1 entry.2) ∧
      ∃ d, (tiedBank.entries.find? fun entry => tiedBank.entries.all fun other =>
          response 1 [[2]] other.2 ≤ response 1 [[2]] entry.2).map Prod.fst = some d ∧
        Kernel.kernelDirection tiedFilters [[2]] = .ok d :=
  ⟨rfl, by decide, rfl, by decide, by decide,
    kernelDirection_first_maximal tiedFilters [[2]] 1 tiedBank rfl (by decide) rfl (by decide)
      (by decide)⟩

theorem kernelDirection_mem_keys {ipuVisionFilters : Dict (Dict Matrix)} {kernelValues : Matrix}
    {d : String} (ok : Kernel.kernelDirection ipuVisionFilters kernelValues = .ok d) :
    ∃ bank, ipuVisionFilters.get? (toString kernelValues.length) = some bank ∧ d ∈ bank.keys := by
  unfold Kernel.kernelDirection at ok
  rcases sized : Kernel.kernelSizer kernelValues with _ | size
  · obtain ⟨bank, -, ok⟩ := bind_eq_ok (sized ▸ ok)
    split at ok <;> cases ok
  · obtain rfl : size = kernelValues.length := by
      unfold Kernel.kernelSizer at sized
      split at sized <;> cases sized
      rfl
    obtain ⟨bank, got, ok⟩ := bind_eq_ok (sized ▸ ok)
    obtain ⟨endResult, scores, ok⟩ := bind_eq_ok ok
    refine ⟨bank, Dict.get?_of_get got, ?_⟩
    dsimp only at ok
    split at ok
    · cases ok
    · split at ok
      · cases ok
        obtain ⟨scored, mem, rfl⟩ := List.mem_map.mp (List.mem_of_find?_eq_some ‹_›)
        obtain ⟨key, key_mem, named⟩ := mapM_ok_mem scores scored mem
        obtain ⟨_, -, rfl⟩ := map_eq_ok named
        exact key_mem
      · cases ok

end Feagi.Vision
