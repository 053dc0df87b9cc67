-- The law of storage keys: a key gives back everything that it was built from,
-- whatever the tenant is called. Only the extension counts in lower case.
import CortexRag.Uploads

namespace cortex_rag.storage_keys

/-! ## Reading a key -/

/-- What a key is built from. -/
structure KeyParts where
  tenant_id : String
  year : Nat
  month : Nat
  document_id : UUID
  version_id : UUID
  extension : String
deriving DecidableEq

/-- The value of a hexadecimal digit. -/
def digit_value (c : Char) : Nat :=
  if c.toNat < 'a'.toNat then c.toNat - '0'.toNat else c.toNat - 'a'.toNat + 10

def value_of_hex (digits : List Char) : Nat :=
  digits.foldl (fun n c => 16 * n + digit_value c) 0

/-- The id with a text. -/
def uuid_of (chars : List Char) : Option UUID :=
  let n := value_of_hex (chars.filter (fun c => c ≠ '-'))
  if h : n < 2 ^ 128 then some ⟨⟨n, h⟩⟩ else none

/-- The number with a text of decimal digits. -/
def number_of (digits : List Char) : Nat := Nat.ofDigitChars 10 digits 0

/-- The last `n` characters. -/
def last (n : Nat) (s : List Char) : List Char := s.drop (s.length - n)

def but_last (n : Nat) (s : List Char) : List Char := s.take (s.length - n)

/-- What stands after the last slash. -/
def file_name (key : List Char) : List Char :=
  (key.reverse.takeWhile (fun c => c ≠ '/')).reverse

/-- A key read from its end: the file name, then parts of known width, and what
is left is the tenant. -/
def key_parts (key : String) : Option KeyParts := do
  let name := file_name key.toList
  let folder := but_last (name.length + 1) key.toList
  let version_id ← uuid_of (name.take 36)
  let document_id ← uuid_of (last 36 folder)
  let dated := but_last 37 folder
  let yearly := but_last 3 dated
  return {
    tenant_id := String.ofList ((but_last 5 yearly).drop 10)
    year := number_of (last 4 yearly)
    month := number_of (last 2 dated)
    document_id
    version_id
    extension := String.ofList (name.drop 37) }

/-! ## The parts of a key -/

theorem last_append {a b : List Char} {n : Nat} (h : b.length = n) : last n (a ++ b) = b := by
  unfold last
  rw [List.length_append, h, Nat.add_sub_cancel]
  exact List.drop_left

theorem but_last_append {a b : List Char} {n : Nat} (h : b.length = n) :
    but_last n (a ++ b) = a := by
  unfold but_last
  rw [List.length_append, h, Nat.add_sub_cancel]
  exact List.take_left

theorem file_name_append {folder name : List Char} (h : '/' ∉ name) :
    file_name (folder ++ '/' :: name) = name := by
  have hall : ∀ c ∈ name.reverse, decide (c ≠ '/') = true := by
    intro c hc
    rw [decide_eq_true_eq]
    rintro rfl
    exact h (List.mem_reverse.mp hc)
  unfold file_name
  rw [List.reverse_append, List.reverse_cons, List.append_assoc, List.singleton_append,
    List.takeWhile_append_of_pos hall, List.takeWhile_cons_of_neg (by simp), List.append_nil,
    List.reverse_reverse]

theorem digit_value_digitChar (n : Nat) (h : n < 16) : digit_value (Nat.digitChar n) = n := by
  have hall : ∀ x < 16, digit_value (Nat.digitChar x) = x := by decide
  exact hall n h

theorem value_of_hexDigits (k n : Nat) (h : n < 16 ^ k) : value_of_hex (hexDigits k n) = n := by
  induction k generalizing n with
  | zero =>
    rw [Nat.pow_zero, Nat.lt_one_iff] at h
    rw [h]
    rfl
  | succ k ih =>
    have hdiv : n / 16 < 16 ^ k := by
      rw [Nat.pow_succ] at h
      omega
    have hprefix := ih (n / 16) hdiv
    unfold value_of_hex at hprefix ⊢
    rw [hexDigits, List.foldl_append, hprefix, List.foldl_cons, List.foldl_nil,
      digit_value_digitChar _ (Nat.mod_lt _ (by omega))]
    omega

/-- The text of an id gives the id back. -/
theorem uuid_of_chars (u : UUID) : uuid_of u.chars = some u := by
  have hvalue : value_of_hex (u.chars.filter (fun c => c ≠ '-')) = u.val.val := by
    rw [UUID.filter_chars]
    exact value_of_hexDigits 32 _ (by simp)
  unfold uuid_of
  simp only [hvalue, u.val.isLt, dite_true]

/-- A padded number gives the number back. -/
theorem number_of_padded (w n : Nat) : number_of (padded w n).toList = n := by
  unfold number_of padded
  rw [String.toList_ofList, Nat.ofDigitChars_append, Nat.ofDigitChars_replicate_zero, Nat.mul_zero,
    Nat.ofDigitChars_ten_toDigits]

theorem length_padded {w n : Nat} (hw : 0 < w) (h : n < 10 ^ w) :
    (padded w n).toList.length = w := by
  have hdigits : (Nat.toDigits 10 n).length ≤ w :=
    (Nat.length_toDigits_le_iff (by decide) hw).mpr h
  unfold padded
  rw [String.toList_ofList, List.length_append, List.length_replicate]
  omega

theorem slash_not_mem_uuid (u : UUID) : '/' ∉ u.chars := by
  intro h
  have hdigit : '/' ∈ hexDigits 32 u.val.val := by
    rw [← UUID.filter_chars, List.mem_filter]
    exact ⟨h, by decide⟩
  exact absurd (hexDigits_mem _ _ _ hdigit) (by decide)

theorem slash_not_mem_normalized {extension : String} (h : '/' ∉ extension.toList) :
    '/' ∉ (normalized_extension extension).toList := by
  unfold normalized_extension
  rw [String.toList_ofList, mem_lower rfl]
  exact fun hd => h ((List.dropWhile_suffix _).mem hd)

/-! ## The law -/

variable {tenant_id : String} {document_id version_id : UUID} {extension : String}
  {uploaded_at : DateTime}

/-- The key as the list of its parts. -/
theorem key_toList : (build_document_version_key tenant_id document_id version_id extension
    uploaded_at).toList =
    (((("documents/".toList ++ tenant_id.toList) ++ '/' :: (padded 4 uploaded_at.year).toList) ++
      '/' :: (padded 2 uploaded_at.month).toList) ++ '/' :: document_id.chars) ++
      '/' :: (version_id.chars ++ '.' :: (normalized_extension extension).toList) := by
  have hslash : "/".toList = ['/'] := rfl
  have hdot : ".".toList = ['.'] := rfl
  unfold build_document_version_key
  simp only [String.toList_append, hslash, hdot, UUID.str, String.toList_ofList, List.append_assoc,
    List.cons_append, List.nil_append]

theorem key_parts_of_key (h : '/' ∉ extension.toList) :
    key_parts (build_document_version_key tenant_id document_id version_id extension uploaded_at) =
      some {
        tenant_id
        year := uploaded_at.year
        month := uploaded_at.month
        document_id
        version_id
        extension := normalized_extension extension } := by
  have hname : '/' ∉ version_id.chars ++ '.' :: (normalized_extension extension).toList := by
    simp [slash_not_mem_uuid, slash_not_mem_normalized h]
  have hyear : (padded 4 uploaded_at.year).toList.length = 4 :=
    length_padded (by decide) (by have := uploaded_at.year_in_range; omega)
  have hmonth : (padded 2 uploaded_at.month).toList.length = 2 :=
    length_padded (by decide) (by have := uploaded_at.month_in_range; omega)
  -- each part is followed by a slash and parts of known width
  have hfolder : ∀ folder name : List Char,
      but_last (name.length + 1) (folder ++ '/' :: name) = folder :=
    fun folder name => but_last_append (List.length_cons ..)
  have hlast : ∀ {n : Nat} (before after : List Char), after.length = n →
      last n (before ++ '/' :: after) = after := by
    intro n before after hlength
    rw [List.append_cons]
    exact last_append hlength
  have hrest : ∀ {n : Nat} (before after : List Char), after.length = n →
      but_last (n + 1) (before ++ '/' :: after) = before := by
    rintro n before after rfl
    exact hfolder before after
  have hextension : (version_id.chars ++ '.' :: (normalized_extension extension).toList).drop 37 =
      (normalized_extension extension).toList := by
    rw [List.append_cons]
    exact List.drop_left' (by simp [UUID.length_chars])
  unfold key_parts
  simp only [key_toList, file_name_append hname, hfolder, List.take_left' version_id.length_chars,
    uuid_of_chars, hlast _ _ document_id.length_chars, hrest _ _ document_id.length_chars,
    hlast _ _ hmonth, hrest _ _ hmonth, hlast _ _ hyear, hrest _ _ hyear, hextension,
    number_of_padded]
  have htenant : ("documents/".toList ++ tenant_id.toList).drop 10 = tenant_id.toList :=
    List.drop_left' rfl
  rw [htenant, String.ofList_toList, String.ofList_toList]
  rfl

/-- A key gives back everything that it was built from, so two versions that
differ in the tenant, the document or the id never share a key. -/
theorem storage_keys_are_unambiguous (tenant_id : String) (document_id version_id : UUID)
    (extension : String) (uploaded_at : DateTime) (h : '/' ∉ extension.toList) :
    key_parts (build_document_version_key tenant_id document_id version_id extension uploaded_at) =
      some {
        tenant_id
        year := uploaded_at.year
        month := uploaded_at.month
        document_id
        version_id
        extension := normalized_extension extension } ∧
    ∀ (tenant_id' : String) (document_id' version_id' : UUID) (extension' : String)
      (uploaded_at' : DateTime), '/' ∉ extension'.toList →
      (build_document_version_key tenant_id document_id version_id extension uploaded_at =
          build_document_version_key tenant_id' document_id' version_id' extension' uploaded_at' ↔
        tenant_id = tenant_id' ∧ uploaded_at.year = uploaded_at'.year ∧
          uploaded_at.month = uploaded_at'.month ∧ document_id = document_id' ∧
          version_id = version_id' ∧
          normalized_extension extension = normalized_extension extension') := by
  refine ⟨key_parts_of_key h, ?_⟩
  intro tenant_id' document_id' version_id' extension' uploaded_at' h'
  constructor
  · intro hkey
    have hparts := congrArg key_parts hkey
    rw [key_parts_of_key h, key_parts_of_key h'] at hparts
    simpa only [Option.some.injEq, KeyParts.mk.injEq] using hparts
  · rintro ⟨rfl, hyear, hmonth, rfl, rfl, hextension⟩
    unfold build_document_version_key
    rw [hyear, hmonth, hextension]

/-- The tenant `a` has a document in a folder that looks like one of the tenant
`a/2026/03`. -/
theorem a_tenant_that_looks_like_a_folder_is_recovered :
    key_parts (build_document_version_key "a/2026/03" ⟨1⟩ ⟨2⟩ ".PDF" noon) =
      some ⟨"a/2026/03", 2026, 3, ⟨1⟩, ⟨2⟩, "pdf"⟩ ∧
    build_document_version_key "a/2026/03" ⟨1⟩ ⟨2⟩ ".PDF" noon ≠
      build_document_version_key "a" ⟨1⟩ ⟨2⟩ "pdf" noon := by
  obtain ⟨hparts, hiff⟩ :=
    storage_keys_are_unambiguous "a/2026/03" ⟨1⟩ ⟨2⟩ ".PDF" noon (by decide)
  refine ⟨hparts, ?_⟩
  rw [Ne, hiff "a" ⟨1⟩ ⟨2⟩ "pdf" noon (by decide)]
  decide

end cortex_rag.storage_keys
