-- The law of the page: whatever the service, the user and the documents say, a browser
-- reads no markup in it but the page's own.
import CortexRag.MarkdownSafety
import CortexRag.MigratedWrites

open html_tokens

namespace cortex_rag.web

/-! ## What the page writes -/

/-- `a || b`, of texts that may be missing. -/
def or_else (a : Option String) (b : String) : String :=
  match a with
  | none => b
  | some s => if s = "" then b else s

/-- A file size, with halves rounded up by `toFixed`. -/
def fmtSize (b : Option Nat) : String :=
  match b with
  | none => ""
  | some b =>
    if b < 1024 then toString b ++ " B"
    else if b < 1048576 then toString ((2 * b + 1024) / 2048) ++ " KB"
    else
      let tenths := (20 * b + 1048576) / 2097152
      toString (tenths / 10) ++ "." ++ toString (tenths % 10) ++ " MB"

/-- What the list of documents reads of a document. -/
structure DocumentItem where
  title : Option String
  original_filename : Option String
  status : DocumentStatus
  size : Option Nat
  page_count : Option Nat

def DocumentItem.name (d : DocumentItem) : String :=
  or_else d.title (or_else d.original_filename "documento")

/-- The entry of a document in the list of `loadDocs`. -/
def doc_entry (d : DocumentItem) : List Char :=
  let title := esc d.name.toList
  let status := d.status.value
  let pages := match d.page_count with
    | none => []
    | some n =>
      if n = 0 then [] else "<span>· ".toList ++ (toString n).toList ++ " pág</span>".toList
  [ "<div class=\"doc-title\" title=\"".toList ++ title ++ "\">".toList, title,
    "</div>\n           <div class=\"doc-meta\">\n             ".toList,
    "<span class=\"badge ".toList ++ status.toList ++ "\">".toList ++ esc status.toList,
    "</span>\n             <span>".toList, (fmtSize d.size).toList,
    "</span>\n             ".toList, pages,
    "\n           </div>\n           ".toList,
    "<button class=\"doc-del\" title=\"Eliminar\">✕</button>".toList ].flatten

inductive Speaker where
  | User
  | Bot
deriving DecidableEq

/-- `addMsg` without sources. -/
def addMsg (role : Speaker) (html : List Char) : List Char :=
  let av := if role = .User then "Tú" else "Cx"
  let who := if role = .User then "Tú" else "Cortex"
  [ "<div class=\"avatar\">".toList, av.toList, "</div>\n       ".toList,
    "<div class=\"bubble\"><div class=\"who\">".toList, who.toList,
    "</div><div class=\"content\">".toList, html, "</div></div>".toList ].flatten

/-- What is written as markup: each text in it comes from outside. -/
inductive Writes where
  /-- the question of the user, in `send` -/
  | Question (q : String)
  /-- the answer of the service -/
  | Answer (answer : String)
  /-- a refusal, with the `detail` of the response -/
  | Refusal (status : Nat) (detail : String)
  /-- a request that has failed -/
  | Failure (message : String)
  /-- a document of the list -/
  | Document (d : DocumentItem)
  /-- a list that has not been loaded -/
  | NoDocuments (message : String)

def Writes.html : Writes → Option (List Char)
  | .Question q => some (addMsg .User (fmt q.toList))
  | .Answer answer => renderMarkdown (or_else (some answer) "(respuesta vacía)").toList
  | .Refusal status detail =>
    some ("<div class=\"err\">Error ".toList ++ (toString status).toList ++
      (if detail = "" then [] else ": ".toList ++ esc detail.toList) ++ "</div>".toList)
  | .Failure message =>
    some ("<div class=\"err\">No se pudo conectar con la API: ".toList ++ esc message.toList ++
      "</div>".toList)
  | .Document d => some (doc_entry d)
  | .NoDocuments message =>
    some ("<div class=\"docs-empty\">No se pudieron cargar los documentos.<br><small>".toList ++
      esc message.toList ++ "</small></div>".toList)

/-! ## The page's own markup -/

instance : DecidablePred Harmless
  | .Text _ => .isTrue trivial
  | .EndTag name => inferInstanceAs (Decidable (name ∈ elements))
  | .StartTag name attributes => inferInstanceAs (Decidable (name ∈ elements ∧
      (∀ a ∈ attributes, a.1 ∈ quiet_attributes ∨ (a.1 = "href".toList ∧
        ("http://".toList <+: a.2 ∨ "https://".toList <+: a.2))) ∧
      (∀ a ∈ attributes, a.1 = "target".toList →
        ("rel".toList, "noopener noreferrer".toList) ∈ attributes)))

/-- Markup without texts from outside. -/
def Fixed (cs : List Char) : Prop := (tokens cs).any (fun ts => ts.all (fun t => Harmless t)) = true

instance (cs : List Char) : Decidable (Fixed cs) := inferInstanceAs (Decidable (_ = true))

theorem reads_fixed {cs : List Char} (h : Fixed cs) : Reads Harmless cs := by
  obtain ⟨ts, hts, hall⟩ := (Option.any_eq_true _ _).1 h
  exact ⟨ts, hts, fun t ht => by simpa using List.all_eq_true.1 hall t ht⟩

theorem plain_digits (n : Nat) : Plain (toString n).toList := by
  have hdigits : (toString n).toList = Nat.toDigits 10 n := by simp [toString]
  have hno : ∀ c : Char, c.isDigit = false → c ∉ (toString n).toList := by
    intro c hc hmem
    rw [hdigits] at hmem
    rw [Nat.isDigit_of_mem_toDigits (by decide) (by decide) hmem] at hc
    cases hc
  exact ⟨hno _ (by decide), hno _ (by decide)⟩

theorem plain_size (b : Option Nat) : Plain (fmtSize b).toList := by
  have hunit : ∀ (n : Nat) (unit : String), Plain unit.toList →
      Plain (toString n ++ unit).toList := by
    intro n unit hunit
    rw [String.toList_append]
    exact plain_append.2 ⟨plain_digits n, hunit⟩
  unfold fmtSize
  split
  · exact ⟨by decide, by decide⟩
  · split
    · exact hunit _ _ ⟨by decide, by decide⟩
    · split
      · exact hunit _ _ ⟨by decide, by decide⟩
      · simp only [String.append_assoc]
        apply hunit
        rw [String.toList_append]
        exact plain_append.2 ⟨⟨by decide, by decide⟩, hunit _ _ ⟨by decide, by decide⟩⟩

theorem reads_status (status : DocumentStatus) :
    Reads Harmless ("<span class=\"badge ".toList ++ status.value.toList ++ "\">".toList ++
      esc status.value.toList) := by
  cases status <;> exact reads_fixed (by decide +kernel)

theorem reads_title {title : List Char} (h : Plain title) :
    Reads Harmless ("<div class=\"doc-title\" title=\"".toList ++ title ++ "\">".toList) := by
  have hparts : "<div class=\"doc-title\" title=\"".toList ++ title ++ "\">".toList =
      opened "div".toList [("class".toList, "doc-title".toList), ("title".toList, title)] := by
    have hstart : "<div class=\"doc-title\" title=\"".toList = '<' :: "div".toList ++
        written ("class".toList, "doc-title".toList) ++ ' ' :: "title".toList ++ ['=', '"'] := by
      decide
    have hend : "\">".toList = ['"', '>'] := by decide
    rw [hstart, hend]
    simp only [opened, written, List.flatMap_cons, List.flatMap_nil, List.append_assoc,
      List.cons_append, List.nil_append, List.append_nil]
  rw [hparts]
  apply reads_start (by decide)
  intro a ha
  simp only [List.mem_cons, List.not_mem_nil, or_false] at ha
  obtain rfl | rfl := ha
  · exact ⟨by simp, by decide⟩
  · exact ⟨by simp, h.no_quote⟩

theorem reads_entry (d : DocumentItem) : Reads Harmless (doc_entry d) := by
  have htitle := plain_esc d.name.toList
  apply reads_flatten
  simp only [List.forall_mem_cons]
  refine ⟨reads_title htitle, reads_plain htitle, reads_fixed (by decide +kernel),
    reads_status d.status, reads_fixed (by decide +kernel), reads_plain (plain_size d.size),
    reads_fixed (by decide +kernel), ?_, reads_fixed (by decide +kernel),
    reads_fixed (by decide +kernel), by simp⟩
  split
  · exact reads_nil
  · split
    · exact reads_nil
    · exact reads_append (reads_append (reads_fixed (by decide +kernel))
        (reads_plain (plain_digits _))) (reads_fixed (by decide +kernel))

theorem reads_message (role : Speaker) {html : List Char} (h : Reads Harmless html) :
    Reads Harmless (addMsg role html) := by
  have hname : ∀ user bot : String, Plain user.toList → Plain bot.toList →
      Reads Harmless (if role = .User then user else bot).toList := by
    intro user bot huser hbot
    split
    · exact reads_plain huser
    · exact reads_plain hbot
  apply reads_flatten
  simp only [List.forall_mem_cons]
  exact ⟨reads_fixed (by decide +kernel), hname _ _ ⟨by decide, by decide⟩ ⟨by decide, by decide⟩,
    reads_fixed (by decide +kernel), reads_fixed (by decide +kernel),
    hname _ _ ⟨by decide, by decide⟩ ⟨by decide, by decide⟩, reads_fixed (by decide +kernel), h,
    reads_fixed (by decide +kernel), by simp⟩

/-- Nothing that comes from outside is read as markup. -/
theorem the_page_reads_only_its_own_markup (w : Writes) (html : List Char)
    (h : w.html = some html) : Reads Harmless html := by
  cases w with
  | Question q =>
    cases h
    exact reads_message .User (reads_inline (fmt_inline q.toList))
  | Answer answer => exact reads_rendered h
  | Refusal status detail =>
    cases h
    refine reads_append (reads_append (reads_append (reads_fixed (by decide +kernel))
      (reads_plain (plain_digits status))) ?_) (reads_fixed (by decide +kernel))
    split
    · exact reads_nil
    · exact reads_append (reads_fixed (by decide +kernel)) (reads_plain (plain_esc detail.toList))
  | Failure message =>
    cases h
    exact reads_append (reads_append (reads_fixed (by decide +kernel))
      (reads_plain (plain_esc message.toList))) (reads_fixed (by decide +kernel))
  | Document d =>
    cases h
    exact reads_entry d
  | NoDocuments message =>
    cases h
    exact reads_append (reads_append (reads_fixed (by decide +kernel))
      (reads_plain (plain_esc message.toList))) (reads_fixed (by decide +kernel))

theorem a_script_is_read_as_text :
    Writes.html (.Answer "<script>*x*</script> [a](http://b/_c_)") =
      some ("<p>&lt;script&gt;<em>x</em>&lt;/script&gt; ".toList ++
        link_tag "http://b/<em>c</em>".toList "_blank".toList ++ "a</a></p>".toList) ∧
    Reads Harmless ("<p>&lt;script&gt;<em>x</em>&lt;/script&gt; ".toList ++
        link_tag "http://b/<em>c</em>".toList "_blank".toList ++ "a</a></p>".toList) :=
  ⟨by decide +kernel, the_page_reads_only_its_own_markup
    (.Answer "<script>*x*</script> [a](http://b/_c_)") _ (by decide +kernel)⟩

end cortex_rag.web
