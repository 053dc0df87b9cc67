-- The upload policy, the storage keys and the blob store. Two versions with
-- different ids never share a key, so the bytes of a version stay its own.
import CortexRag.Domain
import Mathlib.Data.List.TakeWhile

namespace cortex_rag

/-! ## The upload policy -/

structure UploadSettings where
  max_size_mb : Int := 50
  allowed_extensions : List String := ["pdf"]
  allowed_mime_types : List String := ["application/pdf"]

def UploadSettings.max_size_bytes (settings : UploadSettings) : Int :=
  settings.max_size_mb * 1024 * 1024

/-- `repr` of a string, for text of printable characters. -/
def py_repr (s : String) : String :=
  let quote := if '\'' ∈ s.toList ∧ '"' ∉ s.toList then '"' else '\''
  let escaped := s.toList.flatMap (fun c => if c = '\\' ∨ c = quote then ['\\', c] else [c])
  String.ofList (quote :: (escaped ++ [quote]))

/-- `repr` of a list of strings. -/
def py_repr_list (items : List String) : String :=
  "[" ++ String.intercalate ", " (items.map py_repr) ++ "]"

/-- `name.rsplit(".", 1)[-1]`: what stands after the last dot. -/
def after_last_dot (name : List Char) : List Char :=
  (name.reverse.takeWhile (fun c => c ≠ '.')).reverse

def validate_upload (settings : UploadSettings) (original_filename : String) (content : Bytes)
    (content_type : String) : Except DomainError String :=
  if content = [] then .error (.ValidationError "Uploaded file is empty.")
  else if settings.max_size_bytes < content.length then
    .error (.ValidationError
      ("File exceeds max size of " ++ toString settings.max_size_mb ++ " MB."))
  else if '.' ∉ original_filename.toList then
    .error (.ValidationError "Filename has no extension.")
  else
    let extension := String.ofList (lower (after_last_dot original_filename.toList))
    if extension ∉ settings.allowed_extensions then
      .error (.ValidationError ("Extension '." ++ extension ++ "' is not allowed. Allowed: " ++
        py_repr_list settings.allowed_extensions ++ "."))
    else if content_type ∉ settings.allowed_mime_types then
      .error (.ValidationError ("MIME type '" ++ content_type ++ "' is not allowed. Allowed: " ++
        py_repr_list settings.allowed_mime_types ++ "."))
    else .ok extension

theorem dot_not_mem_after_last_dot (name : List Char) : '.' ∉ after_last_dot name := by
  unfold after_last_dot
  rw [List.mem_reverse]
  intro h
  have := List.mem_takeWhile_imp h
  simp only [ne_eq, not_true_eq_false, decide_false, Bool.false_eq_true] at this

/-- An accepted extension holds no dot. -/
theorem validate_upload_no_dot {settings : UploadSettings} {name : String} {content : Bytes}
    {content_type extension : String}
    (h : validate_upload settings name content content_type = .ok extension) :
    '.' ∉ extension.toList := by
  have hname : extension = String.ofList (lower (after_last_dot name.toList)) := by
    unfold validate_upload at h
    dsimp only at h
    repeat' split at h
    all_goals cases h
    rfl
  rw [hname, String.toList_ofList, mem_lower rfl]
  exact dot_not_mem_after_last_dot _

/-! ## The storage keys -/

def build_document_version_key (tenant_id : String) (document_id version_id : UUID)
    (extension : String) (uploaded_at : DateTime) : String :=
  "documents/" ++ tenant_id ++ "/" ++ padded 4 uploaded_at.year ++ "/" ++
    padded 2 uploaded_at.month ++ "/" ++ document_id.str ++ "/" ++ version_id.str ++ "." ++
    normalized_extension extension

theorem dot_not_mem_normalized (extension : String) (h : '.' ∉ extension.toList) :
    '.' ∉ (normalized_extension extension).toList := by
  unfold normalized_extension
  rw [String.toList_ofList, mem_lower rfl]
  exact fun hd => h ((List.dropWhile_suffix _).mem hd)

/-- A list is split at its last dot in one way. -/
theorem split_at_last_dot {a b e f : List Char} (he : '.' ∉ e) (hf : '.' ∉ f)
    (h : a ++ '.' :: e = b ++ '.' :: f) : a = b ∧ e = f := by
  induction a generalizing b with
  | nil =>
    rcases b with _ | ⟨c, b⟩
    · simpa using h
    · simp only [List.nil_append, List.cons_append, List.cons.injEq] at h
      exact absurd (by rw [h.2]; simp) he
  | cons c a ih =>
    rcases b with _ | ⟨d, b⟩
    · simp only [List.nil_append, List.cons_append, List.cons.injEq] at h
      exact absurd (by rw [← h.2]; simp) hf
    · simp only [List.cons_append, List.cons.injEq] at h
      obtain ⟨h1, h2⟩ := ih h.2
      exact ⟨by rw [h.1, h1], h2⟩

/-- The key gives the version id back: it is the 36 characters before the
last dot, whatever the tenant and the other parts are. -/
theorem version_id_of_key {tenant tenant' : String} {document document' version version' : UUID}
    {extension extension' : String} {at_ at_' : DateTime} (he : '.' ∉ extension.toList)
    (he' : '.' ∉ extension'.toList)
    (h : build_document_version_key tenant document version extension at_ =
      build_document_version_key tenant' document' version' extension' at_') :
    version = version' := by
  have hchars := congrArg String.toList h
  unfold build_document_version_key at hchars
  simp only [String.toList_append] at hchars
  have hdot : ".".toList = ['.'] := rfl
  rw [hdot, List.append_assoc _ ['.'], List.append_assoc _ ['.'], List.singleton_append,
    List.singleton_append] at hchars
  obtain ⟨hpre, _⟩ := split_at_last_dot (dot_not_mem_normalized _ he)
    (dot_not_mem_normalized _ he') hchars
  have hv := (List.append_inj' hpre (by simp [UUID.str, UUID.length_chars])).2
  exact UUID.str_injective _ _ (String.toList_injective hv)

/-! ## The blob store -/

/-- What a storage provider holds: the bytes under each key. -/
abbrev Blobs := String → Option Bytes

/-- `StorageProvider.save`: the bytes stand under the key, and every other key
keeps its own. -/
def Blobs.save (blobs : Blobs) (key : String) (content : Bytes) : Blobs :=
  fun k => if k = key then some content else blobs k

@[simp] theorem Blobs.save_self (blobs : Blobs) (key : String) (content : Bytes) :
    blobs.save key content key = some content := if_pos rfl

theorem Blobs.save_ne (blobs : Blobs) {key k : String} (content : Bytes) (h : k ≠ key) :
    blobs.save key content k = blobs k := if_neg h

end cortex_rag
