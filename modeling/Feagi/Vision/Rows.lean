import Feagi.Vision.Kernel

/-!
# The row loop of `monochrome`, `create_direction_matrix` and `contrast`

The three functions share one loop: allocate one empty row per column of the image
(`[[] for x in range(np.shape(image)[1])]`), then walk the image row by row and append the value
of pixel `(row_index, col_index)` to row `row_index`. Appending to a row that was never
allocated raises `IndexError`; `monochrome` and `contrast` pass the rows to `np.asarray`, which
raises on rows of unequal length.
-/

namespace Feagi.Vision

/-- `new_image[row_index].append(value)`. -/
def appendAt {α : Type} (rows : List (List α)) (rowIndex : Nat) (value : α) :
    Except PyException (List (List α)) :=
  if rowIndex < rows.length then .ok (rows.modify (· ++ [value]) rowIndex) else .error .indexError

section Loop

variable {α β : Type} (cell : Nat → Nat → β → Except PyException α)

/-- `for row_item in row:` at `row_index`, from `col_index` on. -/
def fillRow (rowIndex : Nat) : Nat → List β → List (List α) → Except PyException (List (List α))
  | _, [], rows => .ok rows
  | colIndex, rowItem :: row, rows => do
    let value ← cell rowIndex colIndex rowItem
    fillRow rowIndex (colIndex + 1) row (← appendAt rows rowIndex value)

/-- `for row in image:` from `row_index` on. -/
def fillFrom : Nat → List (List β) → List (List α) → Except PyException (List (List α))
  | _, [], rows => .ok rows
  | rowIndex, row :: image, rows => do
    fillFrom (rowIndex + 1) image (← fillRow cell rowIndex 0 row rows)

/-- The loop over `image`, starting from `allocated` empty rows. -/
def fillRows (allocated : Nat) (image : List (List β)) : Except PyException (List (List α)) :=
  fillFrom cell 0 image (List.replicate allocated [])

/-- The values of the loop, row by row, in the order it computes them. -/
def cellValues (image : List (List β)) (rowIndex : Nat) : Except PyException (List (List α)) :=
  (image.enumFrom rowIndex).mapM fun row =>
    (row.2.enumFrom 0).mapM fun item => cell row.1 item.1 item.2

end Loop

namespace Filter

/-- `Filter.monochrome`: `0` below `image_monochromization_threshold`, `255` from it on. -/
def monochrome (imageMonochromizationThreshold : ℚ) (image : Image) :
    Except PyException (List (List Int)) := do
  let newImage ← fillRows (fun _ _ rowItem =>
    .ok (if rowItem < imageMonochromizationThreshold then 0 else 255)) image.width image.rows
  npAsarray newImage

/-- `floor(row_item * 255 / image_max_value)` on `int64` values: the product wraps, the division
is in float64, and numpy divides by zero to `nan` (from `0`) or to an infinity, on which
`floor` raises. -/
def normalizedValue (rowItem imageMaxValue : Int) : Except PyException Int :=
  let product := wrapInt64 (rowItem * 255)
  if imageMaxValue = 0 then .error (if product = 0 then .valueError else .overflowError)
  else .ok ⌊float64 (float64 product / float64 imageMaxValue)⌋

/-- `Filter.contrast`; an even size prints an error and returns `None`. -/
def contrast (ipuVisionFilters : Dict (Dict Matrix)) (image : Image) (kernelSize : Nat) :
    Except PyException (Option (List (List Int))) :=
  if kernelSize % 2 = 0 then .ok none
  else do
    let newImage ← fillRows (fun rowIndex colIndex _ =>
      Kernel.contrastAt ipuVisionFilters image kernelSize rowIndex colIndex) image.width image.rows
    let newImage := (← npAsarray newImage).map (·.map npInt)
    let imageMaxValue ← npAmax newImage
    let normalizedImage ← fillRows (fun _ _ rowItem => normalizedValue rowItem imageMaxValue)
      (← npShape1 newImage) newImage
    .ok (some normalizedImage)

end Filter

namespace Kernel

/-- `Kernel.create_direction_matrix`; an even size prints an error and returns `None`. -/
def createDirectionMatrix (ipuVisionFilters : Dict (Dict Matrix)) (image : Image)
    (kernelSize : Nat) (directionSensitivity : String) :
    Except PyException (Option (List (List String))) :=
  if kernelSize % 2 = 0 then .ok none
  else some <$> fillRows (fun rowIndex colIndex _ => do
    let direction ← directionAt ipuVisionFilters image kernelSize rowIndex colIndex
    .ok (if direction = directionSensitivity ∨ directionSensitivity = "" then direction else ""))
    image.width image.rows

end Kernel

/-! ## The loop -/

section Loop

variable {α β : Type} (cell : Nat → Nat → β → Except PyException α)

theorem modify_append_cons {γ : Type} (f : γ → γ) (x : γ) (rest : List γ) :
    ∀ done : List γ, (done ++ x :: rest).modify f done.length = done ++ f x :: rest
  | [] => rfl
  | d :: done => by simp [modify_append_cons f x rest done]

theorem fillRow_of_lt {rowIndex : Nat} :
    ∀ (colIndex : Nat) (row : List β) (rows : List (List α)), rowIndex < rows.length →
      fillRow cell rowIndex colIndex row rows = (fun values => rows.modify (· ++ values) rowIndex) <$>
        (row.enumFrom colIndex).mapM fun item => cell rowIndex item.1 item.2
  | _, [], rows, _ => by
    show Except.ok rows = Except.ok (rows.modify (· ++ []) rowIndex)
    simp only [List.append_nil]
    exact congrArg Except.ok (List.modify_id rowIndex rows).symm
  | colIndex, rowItem :: row, rows, allocated => by
    simp only [fillRow, List.enumFrom_cons, List.mapM_cons]
    cases cell rowIndex colIndex rowItem with
    | error e => rfl
    | ok value =>
      simp only [ok_bind, appendAt, if_pos allocated]
      rw [fillRow_of_lt (colIndex + 1) row _ (by simpa using allocated)]
      cases (row.enumFrom (colIndex + 1)).mapM fun item => cell rowIndex item.1 item.2 with
      | error e => rfl
      | ok values => simp [List.modify_modify_eq, Function.comp_def]

theorem fillRow_ne_ok {rowIndex colIndex : Nat} {rowItem : β} {row : List β}
    {rows : List (List α)} (missing : rows.length ≤ rowIndex) (out : List (List α)) :
    fillRow cell rowIndex colIndex (rowItem :: row) rows ≠ .ok out := by
  simp only [fillRow]
  cases cell rowIndex colIndex rowItem with
  | error e => nofun
  | ok value => simp [appendAt, Nat.not_lt.mpr missing]

theorem fillFrom_of_le :
    ∀ (image : List (List β)) (done : List (List α)) (spare : Nat), image.length ≤ spare →
      fillFrom cell done.length image (done ++ List.replicate spare []) =
        (fun values => done ++ values ++ List.replicate (spare - image.length) []) <$>
          cellValues cell image done.length
  | [], done, spare, _ => by
    show Except.ok _ = Except.ok _
    simp
  | row :: image, done, spare + 1, enough => by
    simp only [fillFrom, cellValues, List.enumFrom_cons, List.mapM_cons]
    rw [List.replicate_succ, fillRow_of_lt cell 0 row _ (by simp)]
    simp only [modify_append_cons]
    cases (row.enumFrom 0).mapM fun item => cell done.length item.1 item.2 with
    | error e => rfl
    | ok values =>
      have next := fillFrom_of_le image (done ++ [values]) spare
        (by simpa using enough)
      simp only [List.length_append, List.length_singleton, List.append_assoc,
        List.singleton_append, cellValues] at next
      simp only [map_ok, ok_bind, List.nil_append, next]
      cases (image.enumFrom (done.length + 1)).mapM fun row =>
          (row.2.enumFrom 0).mapM fun item => cell row.1 item.1 item.2 with
      | error e => rfl
      | ok rest => simp

theorem fillFrom_ne_ok :
    ∀ (image : List (List β)) (done : List (List α)) (spare : Nat), spare < image.length →
      (∀ row ∈ image, row ≠ []) → ∀ out, fillFrom cell done.length image (done ++ List.replicate spare []) ≠ .ok out
  | [], _, _, short, _, _ => absurd short (Nat.not_lt_zero _)
  | row :: image, done, spare, short, filled, out => by
    obtain ⟨rowItem, row, rfl⟩ := List.exists_cons_of_ne_nil (filled _ (List.mem_cons_self _ _))
    simp only [fillFrom]
    cases spare with
    | zero =>
      simp only [List.replicate_zero, List.append_nil]
      cases answer : fillRow cell done.length 0 (rowItem :: row) done with
      | error e => simp
      | ok rows => exact absurd answer (fillRow_ne_ok cell (le_refl _) rows)
    | succ spare =>
      rw [List.replicate_succ, fillRow_of_lt cell 0 _ _ (by simp)]
      simp only [modify_append_cons]
      cases (List.enumFrom 0 (rowItem :: row)).mapM fun item => cell done.length item.1 item.2 with
      | error e => simp
      | ok values =>
        have next := fillFrom_ne_ok image (done ++ [values]) spare (by simpa using short)
          (fun r mem => filled r (List.mem_cons_of_mem _ mem)) out
        simpa using next

theorem fillRows_of_le {allocated : Nat} {image : List (List β)} (enough : image.length ≤ allocated) :
    fillRows cell allocated image =
      (· ++ List.replicate (allocated - image.length) []) <$> cellValues cell image 0 := by
  simpa using fillFrom_of_le cell image [] allocated enough

theorem fillRows_ne_ok {allocated : Nat} {image : List (List β)} (short : allocated < image.length)
    (filled : ∀ row ∈ image, row ≠ []) (out : List (List α)) : fillRows cell allocated image ≠ .ok out := by
  simpa using fillFrom_ne_ok cell image [] allocated short filled out

theorem cellValues_ok {image : List (List β)} {rowIndex : Nat} {values : List (List α)}
    (ok : cellValues cell image rowIndex = .ok values) :
    values.length = image.length ∧ ∀ rowValues ∈ values, ∃ row ∈ image, rowValues.length = row.length := by
  refine ⟨by simpa using mapM_ok_length ok, fun rowValues mem => ?_⟩
  obtain ⟨row, row_mem, row_ok⟩ := mapM_ok_mem ok rowValues mem
  exact ⟨row.2, List.snd_mem_of_mem_enumFrom row_mem, by simpa using mapM_ok_length row_ok⟩

theorem cellValues_error_of_first {rowIndex : Nat} {item : β} {row : List β} {image : List (List β)}
    {e : PyException} (failing : cell rowIndex 0 item = .error e) :
    cellValues cell ((item :: row) :: image) rowIndex = .error e := by
  simp only [cellValues, List.enumFrom_cons, List.mapM_cons, failing]
  rfl

theorem cellValues_congr (cell' : Nat → Nat → β → Except PyException α) {image : List (List β)}
    {rowIndex : Nat} (agree : ∀ row ∈ image, ∀ item ∈ row, ∀ x y, cell x y item = cell' x y item) :
    cellValues cell image rowIndex = cellValues cell' image rowIndex :=
  mapM_congr fun _ mem => mapM_congr fun _ mem' =>
    agree _ (List.snd_mem_of_mem_enumFrom mem) _ (List.snd_mem_of_mem_enumFrom mem') _ _

end Loop

/-! ## `monochrome`, `create_direction_matrix` and `contrast` on any image -/

theorem cellValues_pure {α β : Type} (f : β → α) (image : List (List β)) (rowIndex : Nat) :
    cellValues (fun _ _ rowItem => .ok (f rowItem)) image rowIndex = .ok (image.map (·.map f)) := by
  have rows (n : Nat) (l : List β) : (l.enumFrom n).map (fun item => f item.2) = l.map f := by
    conv_rhs => rw [← List.enumFrom_map_snd n l, List.map_map]
    rfl
  unfold cellValues
  rw [mapM_congr fun row _ => by rw [mapM_pure (fun item : Nat × β => f item.2), rows],
    mapM_pure (fun row : Nat × List β => row.2.map f)]
  conv_rhs => rw [← List.enumFrom_map_snd rowIndex image, List.map_map]
  rfl

theorem fillRows_off_square {α : Type} (cell : Nat → Nat → ℚ → Except PyException α) {image : Image}
    (tall : 0 < image.height) (wide : 0 < image.width)
    (differ : image.height ≠ image.width) {out : List (List α)}
    (ok : fillRows cell image.width image.rows = .ok out) :
    out.length = image.width ∧ [] ∈ out ∧ (out.headD []).length = image.width := by
  have filled : ∀ row ∈ image.rows, row ≠ [] := fun row mem empty =>
    absurd (image.rectangular row mem) (by simp [empty]; omega)
  rw [← image.tall] at tall differ
  rcases Nat.lt_or_gt_of_ne differ with short | long
  · rw [fillRows_of_le cell (Nat.le_of_lt short)] at ok
    obtain ⟨values, values_ok, rfl⟩ := map_eq_ok ok
    obtain ⟨count, widths⟩ := cellValues_ok cell values_ok
    obtain ⟨first, rest, rfl⟩ := List.exists_cons_of_ne_nil
      (List.ne_nil_of_length_pos (count ▸ tall : 0 < values.length))
    obtain ⟨row, row_mem, same⟩ := widths first (List.mem_cons_self first rest)
    refine ⟨by simp only [List.length_append, count, List.length_replicate]; omega,
      List.mem_append_right _ (List.mem_replicate.mpr ⟨by omega, rfl⟩),
      by simpa [same] using image.rectangular row row_mem⟩
  · exact absurd ok (fillRows_ne_ok cell (show image.width < image.rows.length from long) filled out)

theorem monochrome_of_square (imageMonochromizationThreshold : ℚ) (image : Image)
    (square : image.height = image.width) :
    Filter.monochrome imageMonochromizationThreshold image =
      .ok (image.rows.map (·.map fun rowItem =>
        if rowItem < imageMonochromizationThreshold then 0 else 255)) := by
  rw [Filter.monochrome, fillRows_of_le _ (image.tall.trans square).le, cellValues_pure]
  simp only [map_ok, ok_bind]
  rw [image.tall.trans square, Nat.sub_self, List.replicate_zero, List.append_nil]
  refine npAsarray_of_rectangular image.width fun row mem => ?_
  obtain ⟨row, row_mem, rfl⟩ := List.mem_map.mp mem
  simpa using image.rectangular row row_mem

theorem fillRows_breaks_off_square (ipuVisionFilters : Dict (Dict Matrix))
    (imageMonochromizationThreshold : ℚ) (image : Image) (kernelSize : Nat)
    (directionSensitivity : String) (tall : 0 < image.height) (wide : 0 < image.width)
    (differ : image.height ≠ image.width) :
    (∀ newImage, Filter.monochrome imageMonochromizationThreshold image ≠ .ok newImage) ∧
    (∀ directionMatrix, Kernel.createDirectionMatrix ipuVisionFilters image kernelSize
      directionSensitivity = .ok (some directionMatrix) → directionMatrix.length = image.width) ∧
    (∀ normalizedImage, Filter.contrast ipuVisionFilters image kernelSize ≠ .ok (some normalizedImage)) := by
  have ragged {α : Type} {out : List (List α)} (shape : out.length = image.width ∧ [] ∈ out ∧
      (out.headD []).length = image.width) : npAsarray out = .error .valueError :=
    npAsarray_ragged shape.2.1 (by simp only [List.length_nil, shape.2.2]; omega)
  refine ⟨fun newImage ok => ?_, fun directionMatrix ok => ?_, fun normalizedImage ok => ?_⟩
  · obtain ⟨out, filled, asarray⟩ := bind_eq_ok ok
    rw [ragged (fillRows_off_square _ tall wide differ filled)] at asarray
    cases asarray
  · unfold Kernel.createDirectionMatrix at ok
    split at ok
    · cases ok
    · obtain ⟨out, filled, same⟩ := map_eq_ok ok
      cases same
      exact (fillRows_off_square _ tall wide differ filled).1
  · unfold Filter.contrast at ok
    split at ok
    · cases ok
    · obtain ⟨out, filled, ok⟩ := bind_eq_ok ok
      rw [ragged (fillRows_off_square _ tall wide differ filled)] at ok
      cases ok

/-- One row of two pixels. -/
def wideImage : Image := ⟨[[0, 0]], 1, 2, rfl, by decide⟩

theorem fillRows_breaks_off_square_of_wide :
    0 < wideImage.height ∧ 0 < wideImage.width ∧ wideImage.height ≠ wideImage.width ∧
      (∀ newImage, Filter.monochrome 128 wideImage ≠ .ok newImage) ∧
      (∀ directionMatrix, Kernel.createDirectionMatrix tiedFilters wideImage 1 "" =
        .ok (some directionMatrix) → directionMatrix.length = wideImage.width) ∧
      (∀ normalizedImage, Filter.contrast tiedFilters wideImage 1 ≠ .ok (some normalizedImage)) :=
  ⟨by decide, by decide, by decide,
    fillRows_breaks_off_square tiedFilters 128 wideImage 1 "" (by decide) (by decide) (by decide)⟩

/-! ## Square images -/

theorem cellValues_of_rectangular {α : Type} (cell : Nat → Nat → Except PyException α)
    (image : Image) :
    cellValues (fun x y _ => cell x y) image.rows 0 =
      (List.range image.height).mapM fun x => (List.range image.width).mapM (cell x) := by
  unfold cellValues
  rw [mapM_congr fun row mem => by
      rw [mapM_enumFrom_fst (cell row.1) row.2 0,
        image.rectangular row.2 (List.snd_mem_of_mem_enumFrom mem)],
    mapM_enumFrom_fst (fun x => (List.range' 0 image.width).mapM (cell x)) image.rows 0]
  simp only [List.range_eq_range', image.tall]

theorem createDirectionMatrix_of_square (ipuVisionFilters : Dict (Dict Matrix)) (image : Image)
    {kernelSize : Nat} (directionSensitivity : String) (odd : kernelSize % 2 = 1)
    (square : image.height = image.width) :
    Kernel.createDirectionMatrix ipuVisionFilters image kernelSize directionSensitivity =
      some <$> (List.range image.height).mapM fun x => (List.range image.width).mapM fun y =>
        (fun direction => if direction = directionSensitivity ∨ directionSensitivity = "" then
          direction else "") <$> Kernel.directionAt ipuVisionFilters image kernelSize x y := by
  rw [Kernel.createDirectionMatrix, if_neg (by omega), fillRows_of_le _ (image.tall.trans square).le,
    cellValues_of_rectangular (fun x y => Kernel.directionAt ipuVisionFilters image kernelSize x y >>=
      fun direction => .ok (if direction = directionSensitivity ∨ directionSensitivity = "" then
        direction else ""))]
  simp only [bind_ok_comp]
  rw [image.tall.trans square, Nat.sub_self, List.replicate_zero]
  simp only [List.append_nil, id_map']

end Feagi.Vision
