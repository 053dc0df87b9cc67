-- The law of the page: a text that comes from outside is never read as markup. Of
-- tags, a browser reads only those that the page itself writes.
import CortexRag.HtmlTokens
import CortexRag.Markdown
import CortexRag.RelatedLists

open html_tokens related_lists

namespace cortex_rag.web

/-! ## `replace` piece by piece -/

/-- A relation that holds of a text and of its replacement if it holds of each
character that is kept and of each match. -/
structure Piecewise (R : List Char → List Char → Prop) (found : Regex) : Prop where
  nil : R [] []
  append : ∀ {a a' b b'}, R a a' → R b b' → R (a ++ b) (a' ++ b')
  kept : ∀ c, R [c] [c]
  found : ∀ {before text put n}, found before text = some (put, n) → 0 < n ∧ R (text.take n) put

theorem replace_from_piecewise {R : List Char → List Char → Prop} {found : Regex}
    (h : Piecewise R found) (skip : Nat) (before : Option Char) (text : List Char) :
    R (text.drop skip) (replace_from found skip before text) := by
  induction text generalizing skip before with
  | nil =>
    rw [List.drop_nil]
    cases skip <;> exact h.nil
  | cons c cs ih =>
    rcases skip with _ | skip
    · unfold replace_from
      rcases hfound : found before (c :: cs) with _ | ⟨put, n⟩
      · exact h.append (h.kept c) (ih 0 (some c))
      · obtain ⟨hn, hput⟩ := h.found hfound
        have hsplit : (c :: cs) = (c :: cs).take n ++ cs.drop (n - 1) := by
          conv_lhs => rw [← List.take_append_drop n (c :: cs)]
          rw [show n = n - 1 + 1 by omega, List.drop_succ_cons, Nat.add_sub_cancel]
        rw [List.drop_zero, hsplit]
        exact h.append hput (ih (n - 1) (some c))
    · exact ih skip (some c)

theorem replace_all_piecewise {R : List Char → List Char → Prop} {found : Regex}
    (h : Piecewise R found) (text : List Char) : R text (replace_all found text) :=
  replace_from_piecewise h 0 none text

/-! ## Marks that become tags -/

def marks : List Char := ['*', '_', '\x60', '\n']

/-- The tags that stand for marks. -/
def mark_tags : List (List Char) :=
  ["<strong>", "</strong>", "<em>", "</em>", "<code>", "</code>", "<br>"].map String.toList

/-- Some marks are gone, and some have become tags. -/
inductive Marked : List Char → List Char → Prop
  | nil : Marked [] []
  | keep (c : Char) {a b : List Char} : Marked a b → Marked (c :: a) (c :: b)
  | drop {c : Char} {a b : List Char} : c ∈ marks → Marked a b → Marked (c :: a) b
  | tag {c : Char} {tag a b : List Char} : c ∈ marks → tag ∈ mark_tags → Marked a b →
      Marked (c :: a) (tag ++ b)

theorem marked_refl (a : List Char) : Marked a a := by
  induction a with
  | nil => exact .nil
  | cons c a ih => exact .keep c ih

theorem marked_append {a a' b b' : List Char} (h : Marked a a') (h' : Marked b b') :
    Marked (a ++ b) (a' ++ b') := by
  induction h with
  | nil => exact h'
  | keep c _ ih => exact .keep c ih
  | drop hc _ ih => exact .drop hc ih
  | tag hc htag _ ih =>
    rw [List.append_assoc]
    exact .tag hc htag ih

/-- What becomes of two parts. -/
theorem of_marked_append {a b d : List Char} (h : Marked (a ++ b) d) :
    ∃ a' b', d = a' ++ b' ∧ Marked a a' ∧ Marked b b' := by
  induction a generalizing d with
  | nil => exact ⟨[], d, rfl, .nil, h⟩
  | cons c a ih =>
    cases h with
    | keep _ h =>
      obtain ⟨a', b', rfl, ha, hb⟩ := ih h
      exact ⟨c :: a', b', rfl, .keep c ha, hb⟩
    | drop hc h =>
      obtain ⟨a', b', rfl, ha, hb⟩ := ih h
      exact ⟨a', b', rfl, .drop hc ha, hb⟩
    | @tag _ t _ _ hc htag h =>
      obtain ⟨a', b', rfl, ha, hb⟩ := ih h
      exact ⟨t ++ a', b', by simp, .tag hc htag ha, hb⟩

def unmarked (cs : List Char) : Bool := cs.all (fun c => c ∉ marks)

theorem unmarked_cons {c : Char} {cs : List Char} :
    unmarked (c :: cs) = true ↔ c ∉ marks ∧ unmarked cs = true := by
  unfold unmarked
  rw [List.all_cons, Bool.and_eq_true, decide_eq_true_iff]

/-- A text without marks stays as it is. -/
theorem eq_of_marked {a b : List Char} (h : Marked a b) (hno : unmarked a = true) : b = a := by
  induction h with
  | nil => rfl
  | keep c _ ih => rw [ih (unmarked_cons.1 hno).2]
  | drop hc _ _ => exact absurd hc (unmarked_cons.1 hno).1
  | tag hc _ _ _ => exact absurd hc (unmarked_cons.1 hno).1

/-- No tag that stands for a mark has a quote. -/
theorem no_quote_marked {a b : List Char} (h : Marked a b) (hno : '"' ∉ a) : '"' ∉ b := by
  have htags : ∀ tag ∈ mark_tags, '"' ∉ tag := by decide
  induction h with
  | nil => exact hno
  | keep c _ ih =>
    rw [List.mem_cons, not_or] at hno ⊢
    exact ⟨hno.1, ih hno.2⟩
  | drop _ _ ih => exact ih (fun h => hno (List.mem_cons_of_mem _ h))
  | tag _ htag _ ih =>
    rw [List.mem_append, not_or]
    exact ⟨htags _ htag, ih (fun h => hno (List.mem_cons_of_mem _ h))⟩

/-! ### The replacements of marks -/

/-- A match is the run between its marks. -/
theorem between_eq {mark text run : List Char} {inside : Char → Bool}
    (h : between mark inside text = some run) :
    text.take (mark.length + run.length + mark.length) = mark ++ run ++ mark := by
  unfold between at h
  obtain ⟨⟨⟨rest, rfl⟩, -, hend⟩, hrun⟩ := Option.ite_none_right_eq_some.1 h
  rw [Option.some.injEq] at hrun
  rw [hrun, List.drop_left] at hend
  rw [List.drop_left] at hrun
  obtain ⟨body, rfl⟩ : run <+: rest := hrun ▸ List.takeWhile_prefix inside
  rw [List.drop_left] at hend
  obtain ⟨after, rfl⟩ := hend
  have hsplit : mark ++ (run ++ (mark ++ after)) = (mark ++ run ++ mark) ++ after := by simp
  rw [hsplit]
  exact List.take_left' (by simp [Nat.add_assoc])

/-- Marks on both sides of a run become tags. -/
theorem marked_around {mark run : List Char} {tag : String × String}
    (hmark : mark ⊆ marks) (hne : mark ≠ []) (hopen : tag.1.toList ∈ mark_tags)
    (hclose : tag.2.toList ∈ mark_tags) :
    Marked (mark ++ run ++ mark) (tag.1.toList ++ run ++ tag.2.toList) := by
  have hone : ∀ {m : List Char} {t}, m ⊆ marks → m ≠ [] → t ∈ mark_tags → Marked m t := by
    intro m t hm hne ht
    rcases m with _ | ⟨c, m⟩
    · exact absurd rfl hne
    · rw [List.cons_subset] at hm
      have hgone : Marked m [] := by
        have hall := hm.2
        clear hm hne
        induction m with
        | nil => exact .nil
        | cons d m ih =>
          rw [List.cons_subset] at hall
          exact .drop hall.1 (ih hall.2)
      simpa using Marked.tag hm.1 ht hgone
  exact marked_append (marked_append (hone hmark hne hopen) (marked_refl run))
    (hone hmark hne hclose)

theorem piecewise_marked {found : Regex}
    (h : ∀ {before text put n}, found before text = some (put, n) →
      0 < n ∧ Marked (text.take n) put) : Piecewise Marked found :=
  ⟨.nil, marked_append, fun c => .keep c .nil, h⟩

theorem marked_found {mark : List Char} {inside : Char → Bool} {tag : String × String}
    (hmark : mark ⊆ marks) (hne : mark ≠ []) (hopen : tag.1.toList ∈ mark_tags)
    (hclose : tag.2.toList ∈ mark_tags) : Piecewise Marked (marked mark inside tag) := by
  apply piecewise_marked
  intro before text put n h
  obtain ⟨run, hrun, hput⟩ := Option.map_eq_some_iff.1 h
  cases hput
  refine ⟨by have := List.length_pos_iff.2 hne; omega, ?_⟩
  rw [between_eq hrun]
  exact marked_around hmark hne hopen hclose

theorem underscored_found : Piecewise Marked underscored := by
  apply piecewise_marked
  intro before text put n h
  unfold underscored at h
  simp only at h
  generalize hlead : (if before = none ∧ text.head? = some '_' then [] else text.take 1) = lead at h
  have hstart : lead <+: text := by
    rw [← hlead]
    split
    · exact List.nil_prefix
    · exact List.take_prefix 1 text
  split at h
  · cases h
  · rcases hrun : between ['_'] (fun c => c ≠ '_' && c ≠ '\n') (text.drop lead.length) with _ | run
    · rw [hrun] at h
      cases h
    · rw [hrun] at h
      obtain ⟨-, hput⟩ := Option.ite_none_right_eq_some.1 h
      cases hput
      refine ⟨by omega, ?_⟩
      have hmatch := between_eq hrun
      obtain ⟨rest, rfl⟩ := hstart
      rw [List.drop_left] at hmatch
      have htake : (lead ++ rest).take (lead.length + run.length + 2) =
          lead ++ (['_'] ++ run ++ ['_']) := by
        rw [Nat.add_assoc, List.take_length_add_append, ← hmatch]
        congr 2
        simp [Nat.add_comm, Nat.add_left_comm]
      have hput : lead ++ em.1.toList ++ run ++ em.2.toList =
          lead ++ (em.1.toList ++ run ++ em.2.toList) := by simp
      rw [htake, hput]
      exact marked_append (marked_refl lead)
        (marked_around (by decide) (by simp) (by decide) (by decide))

/-! ## Texts with the tags of a line -/

/-- A web address that can stand between quotes. -/
structure WebAddress (url : List Char) : Prop where
  scheme : "http://".toList <+: url ∨ "https://".toList <+: url
  no_quote : '"' ∉ url

def line_tags : List (List Char) := "</a>".toList :: mark_tags

/-- Text between the tags of a line. -/
inductive Inline : List Char → Prop
  | nil : Inline []
  | text {c : Char} {cs : List Char} : c ≠ '<' → Inline cs → Inline (c :: cs)
  | tag {tag cs : List Char} : tag ∈ line_tags → Inline cs → Inline (tag ++ cs)
  | link {url target cs : List Char} : WebAddress url → '"' ∉ target → Inline cs →
      Inline (link_tag url target ++ cs)

theorem inline_append {a b : List Char} (ha : Inline a) (hb : Inline b) : Inline (a ++ b) := by
  induction ha with
  | nil => exact hb
  | text hc _ ih => exact .text hc ih
  | tag htag _ ih =>
    rw [List.append_assoc]
    exact .tag htag ih
  | link hurl htarget _ ih =>
    rw [List.append_assoc]
    exact .link hurl htarget ih

theorem inline_text {cs : List Char} (h : '<' ∉ cs) : Inline cs := by
  induction cs with
  | nil => exact .nil
  | cons c cs ih =>
    rw [List.mem_cons, not_or] at h
    exact .text (Ne.symm h.1) (ih h.2)

/-- The scheme of an address has no marks. -/
theorem web_address_marked {url url' : List Char} (h : WebAddress url) (hmarked : Marked url url') :
    WebAddress url' := by
  have hstarts : ∀ start : List Char, unmarked start = true → start <+: url →
      start <+: url' := by
    rintro start hno ⟨rest, rfl⟩
    obtain ⟨start', rest', rfl, hstart, -⟩ := of_marked_append hmarked
    rw [eq_of_marked hstart hno]
    exact List.prefix_append start rest'
  refine ⟨?_, no_quote_marked hmarked h.no_quote⟩
  rcases h.scheme with hhttp | hhttps
  · exact Or.inl (hstarts _ (by decide) hhttp)
  · exact Or.inr (hstarts _ (by decide) hhttps)

/-- Tags that stand for marks stand anywhere, also in an address. -/
theorem inline_marked {a b : List Char} (h : Inline a) (hmarked : Marked a b) : Inline b := by
  induction h generalizing b with
  | nil =>
    cases hmarked
    exact .nil
  | text hc _ ih =>
    cases hmarked with
    | keep _ h => exact .text hc (ih h)
    | drop _ h => exact ih h
    | tag _ htag h => exact .tag (List.mem_cons_of_mem _ htag) (ih h)
  | @tag tag cs htag _ ih =>
    have hno : ∀ tag ∈ line_tags, unmarked tag = true := by decide
    obtain ⟨tag', cs', rfl, htag', hcs⟩ := of_marked_append hmarked
    rw [eq_of_marked htag' (hno tag htag)]
    exact .tag htag (ih hcs)
  | @link url target cs hurl htarget _ ih =>
    obtain ⟨tag', cs', rfl, htag', hcs⟩ := of_marked_append hmarked
    unfold link_tag at htag'
    obtain ⟨most, end_, rfl, hmost, hend⟩ := of_marked_append htag'
    obtain ⟨before, target', rfl, hbefore, htarget'⟩ := of_marked_append hmost
    obtain ⟨front, middle, rfl, hfront, hmiddle⟩ := of_marked_append hbefore
    obtain ⟨start, url', rfl, hstart, hurl'⟩ := of_marked_append hfront
    rw [eq_of_marked hend (by decide), eq_of_marked hmiddle (by decide),
      eq_of_marked hstart (by decide)]
    exact .link (web_address_marked hurl hurl') (no_quote_marked htarget' htarget) (ih hcs)

/-! ### Links -/

/-- A text that can stand outside a tag and between quotes. -/
structure Plain (a : List Char) : Prop where
  no_tag : '<' ∉ a
  no_quote : '"' ∉ a

theorem plain_append {a b : List Char} : Plain (a ++ b) ↔ Plain a ∧ Plain b := by
  constructor
  · rintro ⟨htag, hquote⟩
    rw [List.mem_append, not_or] at htag hquote
    exact ⟨⟨htag.1, hquote.1⟩, htag.2, hquote.2⟩
  · rintro ⟨ha, hb⟩
    constructor
    · simp [ha.no_tag, hb.no_tag]
    · simp [ha.no_quote, hb.no_quote]

theorem scheme_some {text : List Char} {n : Nat} (h : scheme text = some n) :
    text.take n = "http://".toList ∨ text.take n = "https://".toList := by
  unfold scheme at h
  split at h
  · rename_i hhttp
    obtain ⟨rest, rfl⟩ := hhttp
    cases h
    exact Or.inl (List.take_left' rfl)
  · split at h
    · rename_i hhttps
      obtain ⟨rest, rfl⟩ := hhttps
      cases h
      exact Or.inr (List.take_left' rfl)
    · cases h

/-- An address is where the text starts. -/
theorem web_address_some {text url : List Char} (h : web_address text = some url) :
    url <+: text ∧ ("http://".toList <+: url ∨ "https://".toList <+: url) := by
  unfold web_address at h
  rcases hscheme : scheme text with _ | n
  · rw [hscheme] at h
    cases h
  · rw [hscheme] at h
    obtain ⟨-, hurl⟩ := Option.ite_none_left_eq_some.1 h
    rw [Option.some.injEq] at hurl
    subst hurl
    constructor
    · conv_rhs => rw [← List.take_append_drop n text]
      exact (List.prefix_append_right_inj _).2 (List.takeWhile_prefix _)
    · rcases scheme_some hscheme with htake | htake
      · exact Or.inl (htake ▸ List.prefix_append _ _)
      · exact Or.inr (htake ▸ List.prefix_append _ _)

/-- A match is a label and an address. -/
theorem link_eq {before : Option Char} {text put : List Char} {n : Nat}
    (h : link before text = some (put, n)) :
    ∃ label url, ("http://".toList <+: url ∨ "https://".toList <+: url) ∧
      text.take n = "[".toList ++ label ++ "](".toList ++ url ++ ")".toList ∧ 0 < n ∧
      put = link_tag url "_blank".toList ++ label ++ "</a>".toList := by
  unfold link at h
  split at h
  · rename_i body
    obtain ⟨⟨-, hmiddle⟩, h⟩ := Option.ite_none_right_eq_some.1 h
    generalize hlabel : body.takeWhile (fun c => c ≠ ']') = label at h hmiddle
    obtain ⟨rest, rfl⟩ : label <+: body := hlabel ▸ List.takeWhile_prefix _
    rw [List.drop_left] at hmiddle
    obtain ⟨rest, rfl⟩ := hmiddle
    rw [List.drop_length_add_append, List.drop_left' (by rfl)] at h
    rcases hurl : web_address rest with _ | url
    · rw [hurl] at h
      cases h
    · rw [hurl] at h
      obtain ⟨hend, hput⟩ := Option.ite_none_right_eq_some.1 h
      obtain ⟨⟨rest, rfl⟩, hscheme⟩ := web_address_some hurl
      rw [List.drop_left] at hend
      obtain ⟨after, rfl⟩ := hend
      cases hput
      refine ⟨label, url, hscheme, ?_, by omega, rfl⟩
      have hsplit : '[' :: (label ++ ("](".toList ++ (url ++ (")".toList ++ after)))) =
          ("[".toList ++ label ++ "](".toList ++ url ++ ")".toList) ++ after := by simp
      rw [hsplit]
      apply List.take_left'
      simp
      omega
  · cases h

theorem link_found : Piecewise (fun a b => Plain a → Inline b) link where
  nil := fun _ => .nil
  append := fun ha hb hab => inline_append (ha (plain_append.1 hab).1) (hb (plain_append.1 hab).2)
  kept := fun c hc => inline_text hc.no_tag
  found := by
    intro before text put n h
    obtain ⟨label, url, hscheme, htext, hn, rfl⟩ := link_eq h
    refine ⟨hn, ?_⟩
    intro hplain
    rw [htext, plain_append, plain_append, plain_append, plain_append] at hplain
    obtain ⟨⟨⟨⟨-, hlabel⟩, -⟩, hurl⟩, -⟩ := hplain
    rw [List.append_assoc]
    refine .link ⟨hscheme, hurl.no_quote⟩ (by decide) ?_
    apply inline_append (inline_text hlabel.no_tag)
    exact List.append_nil "</a>".toList ▸ Inline.tag List.mem_cons_self .nil

/-! ## Markdown inside a line -/

theorem plain_of_subset {a b : List Char} (ha : Plain a) (h : b ⊆ a) : Plain b :=
  ⟨fun hb => ha.no_tag (h hb), fun hb => ha.no_quote (h hb)⟩

theorem plain_esc (s : List Char) : Plain (esc s) := by
  have hone : ∀ c : Char, Plain (escaped c) := by
    intro c
    unfold escaped
    split
    case h_6 c _ htag _ hquote _ =>
      exact ⟨by simpa using Ne.symm htag, by simpa using Ne.symm hquote⟩
    all_goals exact ⟨by decide, by decide⟩
  constructor <;>
    (rw [esc, List.mem_flatMap]; rintro ⟨c, -, hc⟩)
  · exact (hone c).no_tag hc
  · exact (hone c).no_quote hc

theorem inlineMd_inline {text : List Char} (h : Plain text) : Inline (inlineMd text) := by
  have hlinks : Inline (replace_all link text) := replace_all_piecewise link_found text h
  have hmarks : ∀ {found : Regex} {text : List Char}, Piecewise Marked found → Inline text →
      Inline (replace_all found text) :=
    fun hfound htext => inline_marked htext (replace_all_piecewise hfound _)
  unfold inlineMd
  refine hmarks (marked_found ?_ ?_ ?_ ?_) (hmarks underscored_found
    (hmarks (marked_found ?_ ?_ ?_ ?_) (hmarks (marked_found ?_ ?_ ?_ ?_)
      (hmarks (marked_found ?_ ?_ ?_ ?_) hlinks)))) <;> decide

theorem fmt_inline (s : List Char) : Inline (fmt s) :=
  inline_marked (inline_text (plain_esc s).no_tag)
    (replace_all_piecewise (marked_found (by decide) (by decide) (by decide) (by decide)) _)

theorem breaks_inline {text : List Char} (h : Inline text) : Inline (breaks text) := by
  refine inline_marked h ?_
  clear h
  induction text with
  | nil => exact .nil
  | cons c text ih =>
    unfold breaks at ih ⊢
    rw [List.flatMap_cons]
    split
    · rename_i hc
      exact .tag (by simp [hc, marks]) (by decide) ih
    · exact .keep c ih

/-! ## What a browser reads -/

/-- The elements of the page. None of them loads anything. -/
def elements : List (List Char) :=
  ["a", "p", "h1", "h2", "h3", "h4", "h5", "h6", "blockquote", "ul", "ol", "li", "pre", "code",
    "strong", "em", "br", "div", "span", "b", "small", "button"].map String.toList

/-- Attributes that run nothing and lead nowhere. -/
def quiet_attributes : List (List Char) := ["class", "title", "target", "rel"].map String.toList

/-- An element of the page. It leads only to the web, and what it opens in a window of
its own gets no hold of the page. -/
def Harmless : Token → Prop
  | .Text _ => True
  | .EndTag name => name ∈ elements
  | .StartTag name attributes => name ∈ elements ∧
      (∀ a ∈ attributes, a.1 ∈ quiet_attributes ∨ (a.1 = "href".toList ∧
        ("http://".toList <+: a.2 ∨ "https://".toList <+: a.2))) ∧
      (∀ a ∈ attributes, a.1 = "target".toList →
        ("rel".toList, "noopener noreferrer".toList) ∈ attributes)

theorem elements_named : ∀ name ∈ elements, Name name ∧ name ∉ raw_elements := by decide

theorem reads_end {name : List Char} (h : name ∈ elements) : Reads Harmless (closed name) :=
  reads_closed (elements_named name h).1 h

/-- A tag whose attributes are quiet and open no window. -/
theorem reads_start {name : List Char} {attributes : Attributes} (h : name ∈ elements)
    (hquiet : ∀ a ∈ attributes, a.1 ∈ ["class", "title"].map String.toList ∧ '"' ∉ a.2) :
    Reads Harmless (opened name attributes) := by
  have hnames : ∀ a ∈ ["class", "title"].map String.toList,
      Name a ∧ a ∈ quiet_attributes ∧ a ≠ "target".toList := by decide
  apply reads_opened (elements_named name h).1 (elements_named name h).2
  · exact fun a ha => ⟨(hnames a.1 (hquiet a ha).1).1, (hquiet a ha).2⟩
  · refine ⟨h, fun a ha => Or.inl (hnames a.1 (hquiet a ha).1).2.1, ?_⟩
    intro a ha htarget
    exact absurd htarget (hnames a.1 (hquiet a ha).1).2.2

theorem reads_plain {text : List Char} (h : Plain text) : Reads Harmless text :=
  reads_text h.no_tag (fun _ => trivial)

theorem reads_element {name : String} {text : List Char} (hname : name.toList ∈ elements)
    (h : Reads Harmless text) : Reads Harmless (element name text) := by
  have hparts : element name text = opened name.toList [] ++ text ++ closed name.toList := by
    simp [element, opened, closed]
  rw [hparts]
  exact reads_append (reads_append (reads_start hname (by simp)) h) (reads_end hname)

theorem reads_link {url target : List Char} (hurl : WebAddress url) (htarget : '"' ∉ target) :
    Reads Harmless (link_tag url target) := by
  have hparts : link_tag url target = opened "a".toList
      [("href".toList, url), ("target".toList, target),
        ("rel".toList, "noopener noreferrer".toList)] := by
    have hstart : "<a href=\"".toList =
        '<' :: "a".toList ++ ' ' :: "href".toList ++ ['=', '"'] := by decide
    have hmiddle : "\" target=\"".toList = '"' :: ' ' :: "target".toList ++ ['=', '"'] := by decide
    have hend : "\" rel=\"noopener noreferrer\">".toList = '"' :: ' ' :: "rel".toList ++
        '=' :: '"' :: "noopener noreferrer".toList ++ ['"', '>'] := by decide
    unfold link_tag opened
    rw [hstart, hmiddle, hend]
    simp only [written, List.flatMap_cons, List.flatMap_nil, List.append_assoc, List.cons_append,
      List.nil_append, List.append_nil]
  have hrel : Name "href".toList ∧ Name "target".toList ∧ Name "rel".toList := by decide
  rw [hparts]
  apply reads_opened (by decide) (by decide)
  · intro a ha
    simp only [List.mem_cons, List.not_mem_nil, or_false] at ha
    obtain rfl | rfl | rfl := ha
    · exact ⟨hrel.1, hurl.no_quote⟩
    · exact ⟨hrel.2.1, htarget⟩
    · exact ⟨hrel.2.2, by decide⟩
  · refine ⟨by decide, ?_, ?_⟩
    · intro a ha
      simp only [List.mem_cons, List.not_mem_nil, or_false] at ha
      obtain rfl | rfl | rfl := ha
      · exact Or.inr ⟨rfl, hurl.scheme⟩
      · exact Or.inl (by simp [quiet_attributes])
      · exact Or.inl (by simp [quiet_attributes])
    · intro a _ _
      simp

theorem reads_inline {text : List Char} (h : Inline text) : Reads Harmless text := by
  have htags : ∀ tag ∈ line_tags, ∃ name ∈ elements, tag = opened name [] ∨ tag = closed name := by
    decide
  induction h with
  | nil => exact reads_nil
  | @text c cs hc _ ih =>
    exact reads_append (a := [c]) (reads_text (by simpa using Ne.symm hc) (fun _ => trivial)) ih
  | tag htag _ ih =>
    obtain ⟨name, hname, rfl | rfl⟩ := htags _ htag
    · exact reads_append (reads_start hname (by simp)) ih
    · exact reads_append (reads_end hname) ih
  | link hurl htarget _ ih => exact reads_append (reads_link hurl htarget) ih

/-! ## Blocks -/

theorem quote_not_word : is_word '"' = false := by decide

/-- The languages of the blocks are words. -/
def Worded (codeBlocks : List CodeBlock) : Prop := ∀ block ∈ codeBlocks, '"' ∉ block.lang

theorem fence_worded {text : List Char} {block : CodeBlock} {n : Nat}
    (h : fence text = some (block, n)) : '"' ∉ block.lang := by
  unfold fence at h
  obtain ⟨-, h⟩ := Option.ite_none_right_eq_some.1 h
  obtain ⟨code, -, hblock⟩ := Option.map_eq_some_iff.1 h
  cases hblock
  intro hmem
  have hword := List.mem_takeWhile_imp hmem
  rw [quote_not_word] at hword
  exact Bool.false_ne_true hword

theorem take_fences_worded (skip : Nat) (codeBlocks : List CodeBlock) (text : List Char)
    (h : Worded codeBlocks) : Worded (take_fences skip codeBlocks text).2 := by
  induction text generalizing skip codeBlocks with
  | nil => cases skip <;> exact h
  | cons c text ih =>
    rcases skip with _ | skip
    · unfold take_fences
      rcases hfence : fence (c :: text) with _ | ⟨block, n⟩
      · exact ih 0 codeBlocks h
      · refine ih (n - 1) (codeBlocks ++ [block]) ?_
        exact List.forall_mem_append.2 ⟨h, by simpa using fence_worded hfence⟩
    · exact ih skip codeBlocks h

def code_attributes (block : CodeBlock) : Attributes :=
  if block.lang = [] then [] else [("class".toList, "lang-".toList ++ block.lang)]

theorem code_html_eq (block : CodeBlock) :
    code_html block = opened "pre".toList [] ++ (opened "code".toList (code_attributes block) ++
      (esc block.code ++ (closed "code".toList ++ closed "pre".toList))) := by
  unfold code_html code_attributes
  by_cases hlang : block.lang = [] <;> simp [hlang, opened, closed, written]

theorem code_attributes_quiet {block : CodeBlock} (h : '"' ∉ block.lang) :
    ∀ a ∈ code_attributes block, a.1 ∈ ["class", "title"].map String.toList ∧ '"' ∉ a.2 := by
  unfold code_attributes
  split
  · simp
  · simp [h]

theorem reads_code {block : CodeBlock} (h : '"' ∉ block.lang) :
    Reads Harmless (code_html block) := by
  rw [code_html_eq]
  refine reads_append ?_ (reads_append ?_ (reads_append ?_ (reads_append ?_ ?_)))
  · exact reads_start (by decide) (by simp)
  · exact reads_start (by decide) (code_attributes_quiet h)
  · exact reads_plain (plain_esc block.code)
  · exact reads_end (by decide)
  · exact reads_end (by decide)

theorem subset_of_mem_splitOn {line text : List Char} {c : Char} (h : line ∈ text.splitOn c) :
    line ⊆ text := by
  rw [List.splitOn_eq_splitOnP] at h
  induction text generalizing line with
  | nil => simp_all
  | cons d text ih =>
    rw [List.splitOnP_cons_eq_if_modifyHead] at h
    split at h
    · rcases List.mem_cons.1 h with rfl | h
      · exact List.nil_subset _
      · exact List.subset_cons_of_subset d (ih h)
    · rcases hpieces : text.splitOnP (· == c) with _ | ⟨piece, pieces⟩
      · rw [hpieces] at h
        cases h
      · rw [hpieces, List.modifyHead_cons, List.mem_cons] at h
        rw [hpieces] at ih
        rcases h with rfl | h
        · exact List.cons_subset_cons d (ih List.mem_cons_self)
        · exact List.subset_cons_of_subset d (ih (List.mem_cons_of_mem _ h))

theorem trim_subset (p : Char → Bool) (text : List Char) : trimmed_lists.trim p text ⊆ text :=
  List.Subset.trans (List.rdropWhile_prefix p _).subset (List.dropWhile_sublist p).subset

/-- Each line gives a part of itself. -/
def Part (f : List Char → Option (List Char)) : Prop :=
  ∀ line rest, f line = some rest → rest ⊆ line

theorem quote_part : Part quote := by
  intro line rest h
  unfold quote at h
  obtain ⟨-, h⟩ := Option.ite_none_right_eq_some.1 h
  rw [Option.some.injEq] at h
  subst h
  split
  · exact List.Subset.trans (List.drop_subset 1 _) (List.drop_subset 4 line)
  · exact List.drop_subset 4 line

theorem bullet_part : Part bullet := by
  intro line rest h
  unfold bullet at h
  obtain ⟨-, h⟩ := Option.ite_none_right_eq_some.1 h
  rw [Option.some.injEq] at h
  subst h
  exact List.Subset.trans (List.dropWhile_sublist _).subset (List.drop_subset 1 line)

theorem numbered_part : Part numbered := by
  intro line rest h
  unfold numbered at h
  obtain ⟨-, h⟩ := Option.ite_none_right_eq_some.1 h
  rw [Option.some.injEq] at h
  subst h
  exact List.Subset.trans (List.dropWhile_sublist _).subset (List.drop_subset _ line)

theorem plain_parts {f : List Char → Option (List Char)} {lines texts : List (List Char)}
    (hf : Part f) (h : lines.mapM f = some texts) (hplain : ∀ line ∈ lines, Plain line) :
    ∀ text ∈ texts, Plain text := by
  intro text htext
  obtain ⟨line, hline, hpart⟩ := exists_of_mem_right (mapM_eq_some.1 h) htext
  exact plain_of_subset (hplain line hline) (hf line text hpart)

theorem reads_items {texts : List (List Char)} (h : ∀ text ∈ texts, Plain text) :
    Reads Harmless (items texts) := by
  apply reads_flatten
  intro item hitem
  obtain ⟨text, htext, rfl⟩ := List.mem_map.1 hitem
  exact reads_element (by decide) (reads_inline (inlineMd_inline (h text htext)))

theorem plain_intercalate {texts : List (List Char)} (h : ∀ text ∈ texts, Plain text) :
    Plain (['\n'].intercalate texts) := by
  induction texts with
  | nil => exact ⟨by simp [List.intercalate], by simp [List.intercalate]⟩
  | cons text texts ih =>
    rw [List.forall_mem_cons] at h
    rcases texts with _ | ⟨next, texts⟩
    · simpa [List.intercalate] using h.1
    · rw [List.intercalate_cons_cons, plain_append, plain_append]
      exact ⟨⟨h.1, ⟨by decide, by decide⟩⟩, ih h.2⟩

theorem header_some {text title : List Char} {level : Nat} (h : header text = some (level, title)) :
    0 < level ∧ level ≤ 6 ∧ title ⊆ text := by
  unfold header at h
  obtain ⟨⟨hlevel, -, -⟩, h⟩ := Option.ite_none_right_eq_some.1 h
  cases h
  refine ⟨hlevel, ?_, List.Subset.trans (List.dropWhile_sublist _).subset (List.drop_subset _ text)⟩
  rw [List.length_take]
  exact Nat.min_le_left _ _

theorem heading_element {level : Nat} (hpos : 0 < level) (hle : level ≤ 6) :
    ("h" ++ toString level).toList ∈ elements := by
  have hall : ∀ n < 7, 0 < n → ("h" ++ toString n).toList ∈ elements := by decide
  exact hall level (by omega) hpos

theorem reads_block {codeBlocks : List CodeBlock} {trimmed html : List Char}
    (hblocks : Worded codeBlocks) (hplain : Plain trimmed)
    (h : block_html codeBlocks trimmed = some html) : Reads Harmless html := by
  have hlines : ∀ line ∈ trimmed.splitOn '\n', Plain line :=
    fun line hline => plain_of_subset hplain (subset_of_mem_splitOn hline)
  unfold block_html at h
  split at h
  · obtain ⟨block, hblock, rfl⟩ := Option.map_eq_some_iff.1 h
    exact reads_code (hblocks block (List.mem_of_getElem? hblock))
  · simp only at h
    split at h
    · rename_i level title hheader
      cases h
      obtain ⟨hpos, hle, htitle⟩ := header_some (Option.ite_none_right_eq_some.1 hheader).2
      exact reads_element (heading_element hpos hle)
        (reads_inline (inlineMd_inline (plain_of_subset hplain htitle)))
    · split at h
      · rename_i inner hinner
        cases h
        exact reads_element (by decide) (reads_inline (breaks_inline (inlineMd_inline
          (plain_intercalate (plain_parts quote_part hinner hlines)))))
      · split at h
        · rename_i texts htexts
          cases h
          exact reads_element (by decide) (reads_items (plain_parts bullet_part htexts hlines))
        · split at h
          · rename_i texts htexts
            cases h
            exact reads_element (by decide) (reads_items (plain_parts numbered_part htexts hlines))
          · cases h
            exact reads_element (by decide)
              (reads_inline (breaks_inline (inlineMd_inline hplain)))

theorem plain_split (newlines : Nat) {block text : List Char} (hblock : Plain block)
    (htext : Plain text) : ∀ piece ∈ split_blocks newlines block text, Plain piece := by
  have hnewlines : ∀ n, Plain (List.replicate n '\n') :=
    fun n => ⟨fun h => absurd (List.eq_of_mem_replicate h) (by decide),
      fun h => absurd (List.eq_of_mem_replicate h) (by decide)⟩
  have hnil : Plain [] := ⟨List.not_mem_nil, List.not_mem_nil⟩
  induction text generalizing newlines block with
  | nil =>
    unfold split_blocks
    split
    · simpa using plain_append.2 ⟨hblock, hnewlines newlines⟩
    · simp [hblock, hnil]
  | cons c text ih =>
    obtain ⟨hc, htext⟩ := plain_append.1 (show Plain ([c] ++ text) from htext)
    unfold split_blocks
    split
    · exact ih (newlines + 1) hblock htext
    · split
      · exact ih 0 (plain_append.2 ⟨plain_append.2 ⟨hblock, hnewlines newlines⟩, hc⟩) htext
      · exact List.forall_mem_cons.2 ⟨hblock, ih 0 hc htext⟩

theorem reads_rendered {raw html : List Char} (h : renderMarkdown raw = some html) :
    Reads Harmless html := by
  unfold renderMarkdown at h
  obtain ⟨blocks, hblocks, hhtml⟩ := Option.bind_eq_some_iff.1 h
  cases hhtml
  have hworded : Worded (take_fences 0 [] raw).2 := take_fences_worded 0 [] raw (by simp [Worded])
  apply reads_flatten
  intro html hmem
  obtain ⟨block, hblock, hhtml⟩ := exists_of_mem_right (mapM_eq_some.1 hblocks) hmem
  have hplain := plain_split 0 ⟨List.not_mem_nil, List.not_mem_nil⟩
    (plain_esc (take_fences 0 [] raw).1) block hblock
  simp only at hhtml
  split at hhtml
  · cases hhtml
    exact reads_nil
  · exact reads_block hworded (plain_of_subset hplain (trim_subset is_space block)) hhtml

end cortex_rag.web
