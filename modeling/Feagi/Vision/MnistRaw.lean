import Feagi.Vision.Mnist
import Feagi.Vision.Python
import Mathlib.Data.List.OfFn

/-!
# The IDX files `MNIST.read_mnist_raw` reads

`read_mnist_raw(dataset, path)` picks the file names of `dataset`, opens the label file and then
the image file under a fixed directory, unpacks each big-endian header with `struct.unpack`,
and reads the rest as signed bytes and as unsigned bytes reshaped to `(len(lbl), rows, cols)`.
The file system is a parameter: the bytes of each file that exists. The generator raises
before its first item or never, so the model returns the list of items or the exception.
-/

namespace Feagi.Vision

/-- The exceptions `read_mnist_raw` raises. -/
inductive RawError where
  /-- `raise Exception(ValueError, "data set must be 'testing' or 'training'")`. -/
  | datasetError
  /-- `open` of a file that does not exist. -/
  | fileNotFound (name : String)
  /-- `struct.unpack` of fewer bytes than its format needs. -/
  | structError
  /-- `reshape` to a shape of another size. -/
  | valueError
  deriving DecidableEq, Repr

/-! ## Bytes -/

/-- The items `size * i` to `size * i + size` of `xs`, for each `i < count`. -/
def slices {α : Type} (size count : Nat) (xs : List α) : List (List α) :=
  List.ofFn fun i : Fin count => (xs.drop (size * i)).take size

/-- One big-endian unsigned field of `struct` (`'I'` after `'>'`). -/
def unpackWord (bytes : List UInt8) : Nat :=
  bytes.foldl (fun value byte => value * 256 + byte.toNat) 0

/-- `struct.unpack('>' + 'I' * count, data)`: `struct.error` unless `data` has `4 * count` bytes. -/
def structUnpack (count : Nat) (data : List UInt8) : Except RawError (Fin count → Nat) :=
  if data.length = 4 * count then .ok fun i => unpackWord ((data.drop (4 * i)).take 4)
  else .error .structError

/-- `np.int8` of a byte. -/
def int8 (byte : UInt8) : Int :=
  if byte.toNat < 128 then byte.toNat else (byte.toNat : Int) - 256

/-- `array.reshape(count, rows, cols)` of a flat array. -/
def reshape {α : Type} (count rows cols : Nat) (array : List α) :
    Except RawError (List (List (List α))) :=
  if array.length = count * (rows * cols) then
    .ok ((slices (rows * cols) count array).map (slices cols rows))
  else .error .valueError

/-! ## The reader -/

/-- `os.path.join(path, name)` for a relative `name`. -/
def osPathJoin (path name : String) : String :=
  if path = "" ∨ path.endsWith "/" then path ++ name else path ++ "/" ++ name

/-- A string argument as `is` sees it: a literal of the source, which CPython interns when it
reads like an identifier, or a string built at run time, a new object. -/
inductive StrArg where
  | literal (value : String)
  | built (value : String)
  deriving DecidableEq, Repr

/-- `arg is target` for an identifier-like literal `target` of the source. -/
def StrArg.isLiteral (target : String) : StrArg → Bool
  | .literal value => value == target
  | .built _ => false

/-- The files `read_mnist_raw(dataset, path)` opens: `(fname_img, fname_lbl)`. -/
def mnistFiles (dataset : StrArg) (path : String) : Except RawError (String × String) :=
  if dataset.isLiteral "training" then
    .ok (osPathJoin path "train-images.idx3-ubyte", osPathJoin path "train-labels.idx1-ubyte")
  else if dataset.isLiteral "testing" then
    .ok (osPathJoin path "t10k-images.idx3-ubyte", osPathJoin path "t10k-labels.idx1-ubyte")
  else .error .datasetError

/-- `dataset is "training"` fails for a name built at run time, so such a name is rejected even
when it reads `"training"`. -/
theorem mnistFiles_built (value path : String) :
    mnistFiles (.built value) path = .error .datasetError := rfl

/-- The directory both files are opened under. -/
def mnistRoot : String := "/Users/mntehrani/PycharmProjects/MNIST/"

/-- `open(name, 'rb')`, read to the end. -/
def openFile (files : String → Option (List UInt8)) (name : String) :
    Except RawError (List UInt8) :=
  match files name with
  | some bytes => .ok bytes
  | none => .error (.fileNotFound name)

/-- `MNIST.read_mnist_raw(dataset, path)`: the items its generator yields. -/
def readMnistRaw (files : String → Option (List UInt8)) (dataset : StrArg) (path : String) :
    Except RawError (List (Int × List (List Nat))) := do
  let (fnameImg, fnameLbl) ← mnistFiles dataset path
  let flbl ← openFile files (mnistRoot ++ fnameLbl)
  let _ ← structUnpack 2 (flbl.take 8)
  let lbl := (flbl.drop 8).map int8
  let fimg ← openFile files (mnistRoot ++ fnameImg)
  let header ← structUnpack 4 (fimg.take 16)
  let img ← reshape lbl.length (header 2) (header 3) ((fimg.drop 16).map UInt8.toNat)
  pure ((List.range lbl.length).map fun idx => (lbl.getD idx 0, img.getD idx []))

/-- `MNIST.__init__`: `self.read_mnist_raw()` with its defaults, drained into `mnist_array`. -/
def MNIST.create (files : String → Option (List UInt8)) :
    Except RawError (MNIST Int (List (List Nat))) :=
  MNIST.init <$> readMnistRaw files (.literal "training") "../MNIST/"

/-! ## The IDX format -/

/-- The `size`-byte big-endian encoding of `value`. -/
def bigEndianBytes : Nat → Nat → List UInt8
  | 0, _ => []
  | size + 1, value => bigEndianBytes size (value / 256) ++ [UInt8.ofNat (value % 256)]

/-- An IDX header: each field as four big-endian bytes. -/
def idxHeader (fields : List Nat) : List UInt8 := (fields.map (bigEndianBytes 4)).flatten

/-- The byte `np.int8` reads as `label`. -/
def int8Byte (label : Int) : UInt8 := UInt8.ofNat (label % 256).toNat

/-- An IDX1 label file. -/
def idxLabelFile (magic count : Nat) (labels : List Int) : List UInt8 :=
  idxHeader [magic, count] ++ labels.map int8Byte

/-- An IDX3 image file: the images' pixels row by row. -/
def idxImageFile (magic count rows cols : Nat) (images : List (List (List Nat))) : List UInt8 :=
  idxHeader [magic, count, rows, cols] ++ (images.flatMap List.flatten).map UInt8.ofNat

/-- A label `np.int8` can hold. -/
def IsLabel (label : Int) : Prop := -128 ≤ label ∧ label < 128

/-- An image of `rows` rows of `cols` pixels, each a byte. -/
def IsImage (rows cols : Nat) (image : List (List Nat)) : Prop :=
  image.length = rows ∧ ∀ row ∈ image, row.length = cols ∧ ∀ pixel ∈ row, pixel < 256

instance (label : Int) : Decidable (IsLabel label) := inferInstanceAs (Decidable (_ ∧ _))

instance (rows cols : Nat) (image : List (List Nat)) : Decidable (IsImage rows cols image) :=
  inferInstanceAs (Decidable (_ ∧ _))

/-! ## Slices -/

section Slices

variable {α : Type}

@[simp] theorem length_slices (size count : Nat) (xs : List α) :
    (slices size count xs).length = count := List.length_ofFn _

theorem slices_succ (size count : Nat) (xs : List α) :
    slices size (count + 1) xs = xs.take size :: slices size count (xs.drop size) := by
  simp only [slices, List.ofFn_succ, Fin.val_zero, Nat.mul_zero, List.drop_zero, Fin.val_succ,
    List.drop_drop, Nat.mul_succ, Nat.add_comm]

theorem length_flatten_of_length_eq {size : Nat} :
    ∀ {xss : List (List α)}, (∀ xs ∈ xss, xs.length = size) → xss.flatten.length = size * xss.length
  | [], _ => rfl
  | xs :: xss, uniform => by
    rw [List.flatten_cons, List.length_append, uniform xs (List.mem_cons_self _ _),
      length_flatten_of_length_eq fun ys mem => uniform ys (List.mem_cons_of_mem _ mem),
      List.length_cons, Nat.mul_succ, Nat.add_comm]

theorem slices_flatten {size : Nat} :
    ∀ {xss : List (List α)}, (∀ xs ∈ xss, xs.length = size) →
      slices size xss.length xss.flatten = xss
  | [], _ => rfl
  | xs :: xss, uniform => by
    have first := uniform xs (List.mem_cons_self _ _)
    rw [List.length_cons, slices_succ, List.flatten_cons, List.take_left' first,
      List.drop_left' first, slices_flatten fun ys mem => uniform ys (List.mem_cons_of_mem _ mem)]

theorem flatten_slices {size : Nat} :
    ∀ {count : Nat} {xs : List α}, xs.length = size * count → (slices size count xs).flatten = xs
  | 0, xs, length => by simp_all [slices]
  | count + 1, xs, length => by
    rw [slices_succ, List.flatten_cons, flatten_slices (by simp [length, Nat.mul_succ]),
      List.take_append_drop]

theorem length_of_mem_slices {size count : Nat} {xs s : List α} (length : xs.length = size * count)
    (mem : s ∈ slices size count xs) : s.length = size := by
  obtain ⟨i, rfl⟩ := List.mem_ofFn _ _ |>.mp mem
  have : size * i + size ≤ xs.length := by
    rw [length, ← Nat.mul_succ]; exact Nat.mul_le_mul_left _ i.isLt
  simp only [List.length_take, List.length_drop]
  omega

end Slices

/-! ## Words and signed bytes -/

@[simp] theorem length_bigEndianBytes : ∀ size value, (bigEndianBytes size value).length = size
  | 0, _ => rfl
  | size + 1, value => by simp [bigEndianBytes, length_bigEndianBytes size]

theorem unpackWord_append_byte (bytes : List UInt8) (byte : UInt8) :
    unpackWord (bytes ++ [byte]) = unpackWord bytes * 256 + byte.toNat := by
  simp [unpackWord, List.foldl_append]

theorem toNat_ofNat_mod (value : Nat) : (UInt8.ofNat (value % 256)).toNat = value % 256 :=
  UInt8.toNat_ofNat_of_lt (Nat.mod_lt _ (by decide))

theorem unpackWord_bigEndianBytes :
    ∀ size value, value < 256 ^ size → unpackWord (bigEndianBytes size value) = value
  | 0, value, bound => by simp_all [bigEndianBytes, unpackWord]
  | size + 1, value, bound => by
    have rest : value / 256 < 256 ^ size :=
      Nat.div_lt_of_lt_mul (by rwa [Nat.pow_succ, Nat.mul_comm] at bound)
    rw [bigEndianBytes, unpackWord_append_byte, unpackWord_bigEndianBytes size _ rest,
      toNat_ofNat_mod, Nat.div_add_mod']

theorem unpackWord_lt (bytes : List UInt8) : unpackWord bytes < 256 ^ bytes.length := by
  induction bytes using List.reverseRecOn with
  | nil => decide
  | append_singleton bytes byte bound =>
    have : byte.toNat < 256 := byte.toNat_lt_size
    rw [unpackWord_append_byte, List.length_append, List.length_singleton, Nat.pow_succ]
    nlinarith

theorem bigEndianBytes_unpackWord (bytes : List UInt8) :
    bigEndianBytes bytes.length (unpackWord bytes) = bytes := by
  induction bytes using List.reverseRecOn with
  | nil => rfl
  | append_singleton bytes byte rest =>
    have : byte.toNat < 256 := byte.toNat_lt_size
    have high : (unpackWord bytes * 256 + byte.toNat) / 256 = unpackWord bytes := by omega
    have low : (unpackWord bytes * 256 + byte.toNat) % 256 = byte.toNat := by omega
    rw [List.length_append, List.length_singleton, bigEndianBytes, unpackWord_append_byte, high,
      low, rest, UInt8.toNat.inj (UInt8.toNat_ofNat_of_lt this)]

theorem toNat_int8Byte (label : Int) : (int8Byte label).toNat = (label % 256).toNat :=
  UInt8.toNat_ofNat_of_lt (show (label % 256).toNat < 256 by omega)

theorem int8_int8Byte {label : Int} (range : IsLabel label) : int8 (int8Byte label) = label := by
  obtain ⟨low, high⟩ := range
  unfold int8
  rw [toNat_int8Byte]
  split <;> omega

theorem int8Byte_int8 (byte : UInt8) : int8Byte (int8 byte) = byte := by
  have : byte.toNat < 256 := byte.toNat_lt_size
  apply UInt8.toNat.inj
  rw [toNat_int8Byte]
  unfold int8
  split <;> omega

theorem isLabel_int8 (byte : UInt8) : IsLabel (int8 byte) := by
  have : byte.toNat < 256 := byte.toNat_lt_size
  unfold IsLabel int8
  split <;> omega

/-! ## `struct.unpack` and `reshape` -/

theorem structUnpack_eq_ok_iff {count : Nat} {data : List UInt8} {header : Fin count → Nat} :
    structUnpack count data = .ok header ↔
      data = idxHeader (List.ofFn header) ∧ ∀ i, header i < 2 ^ 32 := by
  have fieldBytes : ∀ fields : List Nat, ∀ f ∈ fields.map (bigEndianBytes 4), f.length = 4 := by
    simp
  constructor
  · intro unpacked
    unfold structUnpack at unpacked
    split at unpacked
    · rename_i length
      cases unpacked
      have slice : ∀ i : Fin count, ((data.drop (4 * i)).take 4).length = 4 := fun i =>
        length_of_mem_slices length (List.mem_ofFn _ _ |>.mpr ⟨i, rfl⟩)
      refine ⟨?_, fun i => by simpa only [slice i] using unpackWord_lt ((data.drop (4 * i)).take 4)⟩
      conv_lhs => rw [← flatten_slices length]
      rw [idxHeader, List.map_ofFn]
      exact congrArg List.flatten (List.ofFn_inj.mpr (funext fun i =>
        (slice i ▸ bigEndianBytes_unpackWord _).symm))
    · cases unpacked
  · rintro ⟨rfl, bound⟩
    rw [idxHeader, List.map_ofFn]
    have uniform : ∀ f ∈ List.ofFn (bigEndianBytes 4 ∘ header), f.length = 4 := by simp
    have length := length_flatten_of_length_eq uniform
    have fields := slices_flatten uniform
    rw [List.length_ofFn] at length fields
    rw [structUnpack, if_pos length]
    refine congrArg Except.ok (funext fun i => ?_)
    rw [congrFun (List.ofFn_injective fields) i]
    exact unpackWord_bigEndianBytes 4 _ (bound i)

theorem reshape_eq_ok_iff {α : Type} {count rows cols : Nat} {array : List α}
    {images : List (List (List α))} :
    reshape count rows cols array = .ok images ↔
      images.length = count ∧ (∀ image ∈ images, image.length = rows ∧ ∀ row ∈ image, row.length = cols) ∧
        array = images.flatMap List.flatten := by
  constructor
  · intro reshaped
    unfold reshape at reshaped
    split at reshaped
    · rename_i length
      cases reshaped
      have length : array.length = rows * cols * count := length.trans (Nat.mul_comm _ _)
      have image : ∀ s ∈ slices (rows * cols) count array, s.length = cols * rows := fun s mem =>
        (length_of_mem_slices length mem).trans (Nat.mul_comm _ _)
      refine ⟨by simp, ?_, ?_⟩
      · simp only [List.mem_map]
        rintro _ ⟨s, mem, rfl⟩
        exact ⟨length_slices _ _ _, fun _ => length_of_mem_slices (image s mem)⟩
      · rw [List.flatMap, List.map_map]
        conv_lhs => rw [← flatten_slices length]
        exact congrArg List.flatten ((List.map_id _).symm.trans
          (List.map_congr_left fun s mem => (flatten_slices (image s mem)).symm))
    · cases reshaped
  · rintro ⟨rfl, shape, rfl⟩
    have flat : ∀ s ∈ images.map List.flatten, s.length = rows * cols := by
      simp only [List.mem_map]
      rintro _ ⟨image, mem, rfl⟩
      rw [length_flatten_of_length_eq fun row m => (shape image mem).2 row m, (shape image mem).1,
        Nat.mul_comm]
    have length := length_flatten_of_length_eq flat
    rw [List.length_map, Nat.mul_comm] at length
    have cut := slices_flatten flat
    rw [List.length_map] at cut
    rw [reshape, List.flatMap, if_pos length, cut, List.map_map]
    refine congrArg Except.ok ((List.map_congr_left fun image mem => ?_).trans (List.map_id _))
    rw [Function.comp_apply, ← (shape image mem).1]
    exact slices_flatten fun row m => (shape image mem).2 row m

/-! ## What the reader accepts -/

theorem range_map_getD {β γ : Type} {xs : List β} {ys : List γ} (b : β) (c : γ)
    (length : ys.length = xs.length) :
    (List.range xs.length).map (fun i => (xs.getD i b, ys.getD i c)) = xs.zip ys := by
  apply List.ext_getElem
  · simp [length]
  · intro i h _
    rw [List.length_map, List.length_range] at h
    simp [List.getElem?_eq_getElem h, List.getElem?_eq_getElem (length ▸ h)]

theorem openFile_eq_ok {files : String → Option (List UInt8)} {name : String} {bytes : List UInt8} :
    openFile files name = .ok bytes ↔ files name = some bytes := by
  unfold openFile
  split <;> simp_all

theorem take_drop_idxHeader (fields : List Nat) (body : List UInt8) (n : Nat)
    (header : n = 4 * fields.length) :
    (idxHeader fields ++ body).take n = idxHeader fields ∧
      (idxHeader fields ++ body).drop n = body := by
  have uniform : ∀ f ∈ fields.map (bigEndianBytes 4), f.length = 4 := by simp
  have length : (idxHeader fields).length = n := by
    rw [idxHeader, length_flatten_of_length_eq uniform, List.length_map, header]
  exact ⟨List.take_left' length, List.drop_left' length⟩

theorem ofFn_two (header : Fin 2 → Nat) : List.ofFn header = [header 0, header 1] := by
  simp only [List.ofFn_succ, List.ofFn_zero]; rfl

theorem ofFn_four (header : Fin 4 → Nat) :
    List.ofFn header = [header 0, header 1, header 2, header 3] := by
  simp only [List.ofFn_succ, List.ofFn_zero]; rfl

theorem structUnpack_idxHeader (fields : List Nat) (bound : ∀ field ∈ fields, field < 2 ^ 32) :
    structUnpack fields.length (idxHeader fields) = .ok fields.get :=
  structUnpack_eq_ok_iff.mpr ⟨by rw [List.ofFn_get], fun i => bound _ (List.get_mem _ _ _)⟩

theorem ofNat_toNat (byte : UInt8) : UInt8.ofNat byte.toNat = byte :=
  UInt8.toNat.inj (UInt8.toNat_ofNat_of_lt byte.toNat_lt_size)

theorem zip_map_fst_snd {β γ : Type} (items : List (β × γ)) :
    (items.map Prod.fst).zip (items.map Prod.snd) = items := by
  rw [← List.unzip_fst, ← List.unzip_snd, List.zip_unzip]

theorem idxFiles_of_readMnistRaw {files : String → Option (List UInt8)} {dataset : StrArg} {path : String}
    {items : List (Int × List (List Nat))} (read : readMnistRaw files dataset path = .ok items) :
    ∃ fnameImg fnameLbl magicLbl countLbl magicImg countImg rows cols,
      mnistFiles dataset path = .ok (fnameImg, fnameLbl) ∧
      (∀ field ∈ [magicLbl, countLbl, magicImg, countImg, rows, cols], field < 2 ^ 32) ∧
      (∀ item ∈ items, IsLabel item.1 ∧ IsImage rows cols item.2) ∧
      files (mnistRoot ++ fnameLbl) = some (idxLabelFile magicLbl countLbl (items.map Prod.fst)) ∧
      files (mnistRoot ++ fnameImg) =
        some (idxImageFile magicImg countImg rows cols (items.map Prod.snd)) := by
  obtain ⟨⟨fnameImg, fnameLbl⟩, names, read⟩ := bind_eq_ok read
  obtain ⟨flbl, lblFile, read⟩ := bind_eq_ok read
  obtain ⟨lblHeader, lblUnpacked, read⟩ := bind_eq_ok read
  obtain ⟨fimg, imgFile, read⟩ := bind_eq_ok read
  obtain ⟨header, imgUnpacked, read⟩ := bind_eq_ok read
  obtain ⟨img, reshaped, read⟩ := bind_eq_ok read
  obtain ⟨lblBytes, lblBound⟩ := structUnpack_eq_ok_iff.mp lblUnpacked
  obtain ⟨imgBytes, imgBound⟩ := structUnpack_eq_ok_iff.mp imgUnpacked
  obtain ⟨count, shape, pixels⟩ := reshape_eq_ok_iff.mp reshaped
  rw [pure_eq_ok, range_map_getD 0 [] count] at read
  cases read
  rw [List.map_fst_zip _ _ count.ge, List.map_snd_zip _ _ count.le]
  refine ⟨fnameImg, fnameLbl, lblHeader 0, lblHeader 1, header 0, header 1, header 2, header 3,
    names, ?_, fun item mem => ?_, ?_, ?_⟩
  · simp only [List.mem_cons, List.not_mem_nil, or_false, forall_eq_or_imp, forall_eq]
    exact ⟨lblBound 0, lblBound 1, imgBound 0, imgBound 1, imgBound 2, imgBound 3⟩
  · obtain ⟨label, image⟩ := item
    obtain ⟨label, image⟩ := List.of_mem_zip mem
    obtain ⟨byte, -, rfl⟩ := List.mem_map.mp label
    refine ⟨isLabel_int8 byte, (shape _ image).1, fun row mem => ⟨(shape _ image).2 row mem,
      fun pixel inRow => ?_⟩⟩
    have flat : pixel ∈ img.flatMap List.flatten :=
      List.mem_flatMap.mpr ⟨_, image, List.mem_flatten.mpr ⟨row, mem, inRow⟩⟩
    obtain ⟨byte, -, rfl⟩ := List.mem_map.mp (pixels ▸ flat)
    exact byte.toNat_lt_size
  · rw [openFile_eq_ok.mp lblFile, idxLabelFile, ← ofFn_two, ← lblBytes, List.map_map,
      show int8Byte ∘ int8 = id from funext int8Byte_int8, List.map_id, List.take_append_drop]
  · rw [openFile_eq_ok.mp imgFile, idxImageFile, ← ofFn_four, ← imgBytes, ← pixels, List.map_map,
      show UInt8.ofNat ∘ UInt8.toNat = id from funext ofNat_toNat, List.map_id,
      List.take_append_drop]

theorem readMnistRaw_of_idxFiles {files : String → Option (List UInt8)} {dataset : StrArg} {path : String}
    {items : List (Int × List (List Nat))} {fnameImg fnameLbl : String}
    {magicLbl countLbl magicImg countImg rows cols : Nat}
    (names : mnistFiles dataset path = .ok (fnameImg, fnameLbl))
    (bound : ∀ field ∈ [magicLbl, countLbl, magicImg, countImg, rows, cols], field < 2 ^ 32)
    (wellFormed : ∀ item ∈ items, IsLabel item.1 ∧ IsImage rows cols item.2)
    (lblFile : files (mnistRoot ++ fnameLbl) = some (idxLabelFile magicLbl countLbl (items.map Prod.fst)))
    (imgFile : files (mnistRoot ++ fnameImg) =
      some (idxImageFile magicImg countImg rows cols (items.map Prod.snd))) :
    readMnistRaw files dataset path = .ok items := by
  have lblHeader : structUnpack 2 ((idxLabelFile magicLbl countLbl (items.map Prod.fst)).take 8) =
      .ok [magicLbl, countLbl].get := by
    rw [idxLabelFile, (take_drop_idxHeader [magicLbl, countLbl] _ 8 rfl).1]
    exact structUnpack_idxHeader _ fun field mem => bound field (List.mem_append_left _ mem)
  obtain ⟨header, imgHeader, headerRows, headerCols⟩ : ∃ header : Fin 4 → Nat,
      structUnpack 4 ((idxImageFile magicImg countImg rows cols (items.map Prod.snd)).take 16) =
        .ok header ∧ header 2 = rows ∧ header 3 = cols := by
    refine ⟨[magicImg, countImg, rows, cols].get, ?_, rfl, rfl⟩
    rw [idxImageFile, (take_drop_idxHeader [magicImg, countImg, rows, cols] _ 16 rfl).1]
    exact structUnpack_idxHeader _ fun field mem =>
      bound field (List.mem_append_right [magicLbl, countLbl] mem)
  have labels : ((idxLabelFile magicLbl countLbl (items.map Prod.fst)).drop 8).map int8 =
      items.map Prod.fst := by
    rw [idxLabelFile, (take_drop_idxHeader [magicLbl, countLbl] _ 8 rfl).2, List.map_map]
    refine (List.map_congr_left fun label mem => ?_).trans (List.map_id _)
    obtain ⟨item, inItems, rfl⟩ := List.mem_map.mp mem
    exact int8_int8Byte (wellFormed item inItems).1
  have pixels : ((idxImageFile magicImg countImg rows cols (items.map Prod.snd)).drop 16).map
      UInt8.toNat = (items.map Prod.snd).flatMap List.flatten := by
    rw [idxImageFile, (take_drop_idxHeader [magicImg, countImg, rows, cols] _ 16 rfl).2, List.map_map]
    refine (List.map_congr_left fun pixel mem => ?_).trans (List.map_id _)
    obtain ⟨_, image, row⟩ := List.mem_flatMap.mp mem
    obtain ⟨item, mem, rfl⟩ := List.mem_map.mp image
    obtain ⟨row, inImage, inRow⟩ := List.mem_flatten.mp row
    exact UInt8.toNat_ofNat_of_lt (((wellFormed item mem).2.2 row inImage).2 pixel inRow)
  have reshaped : reshape (items.map Prod.fst).length rows cols
      ((items.map Prod.snd).flatMap List.flatten) = .ok (items.map Prod.snd) := by
    refine reshape_eq_ok_iff.mpr ⟨by simp, fun image mem => ?_, rfl⟩
    obtain ⟨item, inItems, rfl⟩ := List.mem_map.mp mem
    exact ⟨(wellFormed item inItems).2.1, fun row inImage =>
      ((wellFormed item inItems).2.2 row inImage).1⟩
  simp only [readMnistRaw, names, ok_bind, openFile_eq_ok.mpr lblFile, lblHeader, labels,
    openFile_eq_ok.mpr imgFile, imgHeader]
  rw [headerRows, headerCols, pixels, reshaped, ok_bind, pure_eq_ok,
    range_map_getD 0 [] (by simp), zip_map_fst_snd]

theorem structUnpack_of_length {count : Nat} {data : List UInt8} (length : 4 * count ≤ data.length) :
    structUnpack count (data.take (4 * count)) =
      .ok fun i => unpackWord ((data.drop (4 * i)).take 4) := by
  rw [structUnpack, if_pos (by simp; omega)]
  refine congrArg Except.ok (funext fun i => ?_)
  rw [List.drop_take, List.take_take, Nat.min_eq_left (by omega)]

/-- A label file with one label, and an image file announcing `1 × 1` images with no pixel. -/
def missingPixel : String → Option (List UInt8) := fun name =>
  if name = mnistRoot ++ "train-labels.idx1-ubyte" then some [0, 0, 8, 1, 0, 0, 0, 1, 7]
  else if name = mnistRoot ++ "train-images.idx3-ubyte" then
    some [0, 0, 8, 3, 0, 0, 0, 1, 0, 0, 0, 1, 0, 0, 0, 1]
  else none

theorem MNIST.create_eq_ok_iff (files : String → Option (List UInt8))
    (mnist : MNIST Int (List (List Nat))) :
    MNIST.create files = .ok mnist ↔
      mnist.mnistIterator = [] ∧ readMnistRaw files (.literal "training") "../MNIST/" = .ok mnist.mnistArray := by
  unfold MNIST.create
  cases readMnistRaw files (.literal "training") "../MNIST/" with
  | error e => exact ⟨nofun, fun ⟨_, read⟩ => nomatch read⟩
  | ok items =>
    rw [map_ok, MNIST.init_eq]
    obtain ⟨iterator, array⟩ := mnist
    constructor
    · intro created
      cases created
      exact ⟨rfl, rfl⟩
    · rintro ⟨rfl, read⟩
      cases read
      rfl

end Feagi.Vision
