-- The law of the code blocks: an answer without replacement characters is always shown, and a
-- block of code between blank lines is shown as it was written.
import CortexRag.MarkdownSafety

open html_tokens related_lists trimmed_lists

namespace cortex_rag.web

/-! ## Texts with placeholders -/

/-- The only replacement characters are those of placeholders, whose numbers are below `n`. -/
inductive Slotted (n : Nat) : List Char → Prop
  | nil : Slotted n []
  | char {c : Char} {cs : List Char} : c ≠ '\ufffd' → Slotted n cs → Slotted n (c :: cs)
  | slot {i : Nat} {cs : List Char} : i < n → Slotted n cs → Slotted n (placeholder i ++ cs)

variable {n : Nat}

theorem slotted_append {a b : List Char} (ha : Slotted n a) (hb : Slotted n b) :
    Slotted n (a ++ b) := by
  induction ha with
  | nil => exact hb
  | char hc _ ih => exact .char hc ih
  | slot hi _ ih =>
    rw [List.append_assoc]
    exact .slot hi ih

theorem slotted_of_no_replacement {text : List Char} (h : '\ufffd' ∉ text) : Slotted n text := by
  induction text with
  | nil => exact .nil
  | cons c text ih =>
    rw [List.mem_cons, not_or] at h
    exact .char (Ne.symm h.1) (ih h.2)

/-- The characters of a placeholder are no blanks, and `esc` keeps them. -/
theorem of_mem_placeholder {i : Nat} {c : Char} (h : c ∈ placeholder i) :
    is_space c = false ∧ escaped c = [c] := by
  have hdigit : c = '\ufffd' ∨ c = 'C' ∨ c = 'B' ∨ c.isDigit = true := by
    simp only [placeholder, List.cons_append, List.mem_cons, List.mem_append, List.not_mem_nil,
      or_false] at h
    rcases h with rfl | rfl | rfl | h | rfl
    · exact Or.inl rfl
    · exact Or.inr (Or.inl rfl)
    · exact Or.inr (Or.inr (Or.inl rfl))
    · exact Or.inr (Or.inr (Or.inr (Nat.isDigit_of_mem_toDigits (by decide) (by decide) h)))
    · exact Or.inl rfl
  rcases hdigit with rfl | rfl | rfl | hdigit
  · decide
  · decide
  · decide
  · have hrange : 48 ≤ c.toNat ∧ c.toNat ≤ 57 := by
      simp only [Char.isDigit, Bool.and_eq_true, decide_eq_true_eq, ge_iff_le,
        UInt32.le_iff_toNat_le] at hdigit
      exact hdigit
    have hall : ∀ k < 58, 48 ≤ k → is_space (Char.ofNat k) = false ∧
        escaped (Char.ofNat k) = [Char.ofNat k] := by decide
    have hc := hall c.toNat (by omega) hrange.1
    rwa [Char.ofNat_toNat] at hc

theorem esc_placeholder (i : Nat) : esc (placeholder i) = placeholder i := by
  have hkept : ∀ cs : List Char, (∀ c ∈ cs, escaped c = [c]) → esc cs = cs := by
    intro cs
    unfold esc
    induction cs with
    | nil => exact fun _ => rfl
    | cons c cs ih =>
      intro h
      rw [List.forall_mem_cons] at h
      rw [List.flatMap_cons, h.1, ih h.2, List.singleton_append]
  exact hkept _ (fun c hc => (of_mem_placeholder hc).2)

theorem esc_append (a b : List Char) : esc (a ++ b) = esc a ++ esc b := List.flatMap_append

/-- A character that no reference is written with comes from the text itself. -/
theorem not_mem_escaped {c d : Char} (hd : d ∉ "&amp;&lt;&gt;&quot;&#39;".toList) (h : c ≠ d) :
    d ∉ escaped c := by
  have hpart : ∀ s : List Char, s ⊆ "&amp;&lt;&gt;&quot;&#39;".toList → d ∉ s :=
    fun s hs hmem => hd (hs hmem)
  unfold escaped
  split
  case h_6 => simpa using Ne.symm h
  all_goals exact hpart _ (by decide)

theorem not_mem_esc {s : List Char} {d : Char} (hd : d ∉ "&amp;&lt;&gt;&quot;&#39;".toList)
    (h : d ∉ s) : d ∉ esc s := by
  unfold esc
  rw [List.mem_flatMap]
  rintro ⟨c, hc, hmem⟩
  exact not_mem_escaped hd (fun he => h (he ▸ hc)) hmem

theorem slotted_esc {text : List Char} (h : Slotted n text) : Slotted n (esc text) := by
  induction h with
  | nil => exact .nil
  | @char c cs hc _ ih =>
    exact slotted_append (slotted_of_no_replacement (not_mem_escaped (by decide) hc)) ih
  | @slot i cs hi _ ih =>
    rw [esc_append, esc_placeholder]
    exact .slot hi ih

theorem take_fences_begins (skip : Nat) (codeBlocks : List CodeBlock) (text : List Char) :
    codeBlocks <+: (take_fences skip codeBlocks text).2 := by
  induction text generalizing skip codeBlocks with
  | nil => cases skip <;> exact List.prefix_rfl
  | cons c text ih =>
    rcases skip with _ | skip
    · unfold take_fences
      rcases fence (c :: text) with _ | ⟨block, n⟩
      · exact ih 0 codeBlocks
      · exact (List.prefix_append codeBlocks [block]).trans (ih (n - 1) (codeBlocks ++ [block]))
    · exact ih skip codeBlocks

/-- Each placeholder is of a block that has been taken. -/
theorem slotted_take_fences (skip : Nat) (codeBlocks : List CodeBlock) {text : List Char}
    (h : '\ufffd' ∉ text) : Slotted (take_fences skip codeBlocks text).2.length
      (take_fences skip codeBlocks text).1 := by
  induction text generalizing skip codeBlocks with
  | nil => cases skip <;> exact .nil
  | cons c text ih =>
    rw [List.mem_cons, not_or] at h
    rcases skip with _ | skip
    · unfold take_fences
      rcases fence (c :: text) with _ | ⟨block, n⟩
      · exact .char (Ne.symm h.1) (ih 0 codeBlocks h.2)
      · refine .slot ?_ (ih (n - 1) (codeBlocks ++ [block]) h.2)
        have hlater := (take_fences_begins (n - 1) (codeBlocks ++ [block]) text).length_le
        rw [List.length_append] at hlater
        exact hlater
    · exact ih skip codeBlocks h.2

/-- A run without line ends goes to one block. -/
theorem split_blocks_run (newlines : Nat) (block : List Char) {run : List Char} (text : List Char)
    (hne : run ≠ []) (h : '\n' ∉ run) :
    split_blocks newlines block (run ++ text) =
      if newlines < 2 then split_blocks 0 (block ++ List.replicate newlines '\n' ++ run) text
      else block :: split_blocks 0 run text := by
  have hmore : ∀ (run block : List Char), '\n' ∉ run →
      split_blocks 0 block (run ++ text) = split_blocks 0 (block ++ run) text := by
    intro run
    induction run with
    | nil => intro block _; simp
    | cons c run ih =>
      intro block h
      rw [List.mem_cons, not_or] at h
      rw [List.cons_append, split_blocks, if_neg (Ne.symm h.1), if_pos (by decide), ih _ h.2]
      simp
  rcases run with _ | ⟨c, run⟩
  · exact absurd rfl hne
  · rw [List.mem_cons, not_or] at h
    rw [List.cons_append, split_blocks, if_neg (Ne.symm h.1)]
    split
    · rw [hmore run _ h.2]
      simp
    · rw [hmore run _ h.2]
      simp

theorem newline_not_mem_placeholder (i : Nat) : '\n' ∉ placeholder i := by
  intro h
  exact absurd (of_mem_placeholder h).1 (by decide)

theorem slotted_newlines (k : Nat) : Slotted n (List.replicate k '\n') :=
  slotted_of_no_replacement (fun h => absurd (List.eq_of_mem_replicate h) (by decide))

theorem slotted_split (newlines : Nat) {block text : List Char} (hblock : Slotted n block)
    (htext : Slotted n text) : ∀ piece ∈ split_blocks newlines block text, Slotted n piece := by
  induction htext generalizing newlines block with
  | nil =>
    unfold split_blocks
    split
    · simpa using slotted_append hblock (slotted_newlines newlines)
    · simp [hblock, Slotted.nil]
  | @char c text hc _ ih =>
    have hone : Slotted n [c] := .char hc .nil
    unfold split_blocks
    split
    · exact ih (newlines + 1) hblock
    · split
      · exact ih 0 (slotted_append (slotted_append hblock (slotted_newlines newlines)) hone)
      · exact List.forall_mem_cons.2 ⟨hblock, ih 0 hone⟩
  | @slot i text hi _ ih =>
    have hone : Slotted n (placeholder i) := by
      simpa using Slotted.slot hi .nil
    have hline := newline_not_mem_placeholder i
    rw [split_blocks_run newlines block text (by simp [placeholder]) hline]
    split
    · exact ih 0 (slotted_append (slotted_append hblock (slotted_newlines newlines)) hone)
    · exact List.forall_mem_cons.2 ⟨hblock, ih 0 hone⟩

/-- A placeholder has no blanks, so none of it is trimmed. -/
theorem slotted_trim {text : List Char} (h : Slotted n text) :
    Slotted n (trim is_space text) := by
  obtain ⟨before, after, hbefore, hafter, htext⟩ :=
    eq_trim_between_blanks (p := is_space) text
  generalize trim is_space text = kept at htext ⊢
  have hleft : ∀ {before rest : List Char}, (∀ c ∈ before, is_space c = true) →
      Slotted n (before ++ rest) → Slotted n rest := by
    intro before rest hbefore h
    induction before with
    | nil => exact h
    | cons c before ih =>
      rw [List.forall_mem_cons] at hbefore
      generalize hall : c :: before ++ rest = all at h
      cases h with
      | nil => cases hall
      | char _ h =>
        cases hall
        exact ih hbefore.2 h
      | slot _ _ =>
        obtain rfl : c = '\ufffd' := by simpa [placeholder] using congrArg List.head? hall
        exact absurd hbefore.1 (by decide)
  have hright : ∀ {all : List Char}, Slotted n all → ∀ {rest after : List Char},
      (∀ c ∈ after, is_space c = true) → rest ++ after = all → Slotted n rest := by
    intro all h
    induction h with
    | nil =>
      intro rest after _ hall
      rw [(List.append_eq_nil_iff.1 hall).1]
      exact .nil
    | @char c cs hc _ ih =>
      intro rest after hafter hall
      rcases rest with _ | ⟨d, rest⟩
      · exact .nil
      · cases hall
        exact .char hc (ih hafter rfl)
    | @slot i cs hi _ ih =>
      intro rest after hafter hall
      rcases List.append_eq_append_iff.1 hall with ⟨part, hpart, hrest⟩ | ⟨part, hpart, hrest⟩
      · rcases part with _ | ⟨c, part⟩
        · rw [List.append_nil] at hpart
          rw [← hpart]
          simpa using Slotted.slot hi .nil
        · -- the blanks would begin inside the placeholder
          have hc : c ∈ placeholder i := by simp [hpart]
          have hblank := hafter c (by simp [hrest])
          rw [(of_mem_placeholder hc).1] at hblank
          cases hblank
      · rw [hpart]
        exact .slot hi (ih hafter hrest.symm)
  rw [htext] at h
  exact hright (hleft hbefore h) hafter rfl

theorem digits_of_placeholder (i : Nat) (rest : List Char) :
    (Nat.toDigits 10 i ++ '\ufffd' :: rest).takeWhile Char.isDigit = Nat.toDigits 10 i := by
  have hall : ∀ c ∈ Nat.toDigits 10 i, c.isDigit = true :=
    fun c hc => Nat.isDigit_of_mem_toDigits (by decide) (by decide) hc
  rw [List.takeWhile_append_of_pos hall, List.takeWhile_cons_of_neg (by decide), List.append_nil]

/-- What is matched as a placeholder is one. -/
theorem placeholder_number_some {text : List Char} {k : Nat} (h : Slotted n text)
    (hnumber : placeholder_number text = some k) : k < n := by
  unfold placeholder_number at hnumber
  split at hnumber
  · rename_i rest
    obtain ⟨⟨-, hend⟩, hk⟩ := Option.ite_none_right_eq_some.1 hnumber
    rw [Option.some.injEq] at hk
    generalize hall : '\ufffd' :: 'C' :: 'B' :: rest = all at h
    cases h with
    | nil => cases hall
    | char hc _ =>
      cases hall
      exact absurd rfl hc
    | @slot i cs hi _ =>
      have hrest : rest = Nat.toDigits 10 i ++ '\ufffd' :: cs := by simpa [placeholder] using hall
      rw [hrest, digits_of_placeholder, Nat.ofDigitChars_ten_toDigits] at hk
      exact hk ▸ hi
  · cases hnumber

/-! ## Answers without replacement characters -/

theorem block_html_some {codeBlocks : List CodeBlock} {trimmed : List Char}
    (h : Slotted codeBlocks.length trimmed) :
    ∃ html, block_html codeBlocks trimmed = some html := by
  unfold block_html
  split
  · rename_i k hk
    have hlt := placeholder_number_some h hk
    exact ⟨_, by rw [List.getElem?_eq_getElem hlt]; rfl⟩
  · simp only
    split
    · exact ⟨_, rfl⟩
    · split
      · exact ⟨_, rfl⟩
      · split
        · exact ⟨_, rfl⟩
        · split <;> exact ⟨_, rfl⟩

/-! ## Paragraphs -/

/-- The blocks that are not empty. -/
def paragraphs (newlines : Nat) (block text : List Char) : List (List Char) :=
  ((split_blocks newlines block text).map (trim is_space)).filter (fun p => p ≠ [])

/-- What the paragraphs of a text look like. -/
def shows (codeBlocks : List CodeBlock) (text : List Char) : Option (List Char) :=
  ((paragraphs 0 [] (esc text)).mapM (block_html codeBlocks)).map List.flatten

theorem renderMarkdown_eq (raw : List Char) :
    renderMarkdown raw = shows (take_fences 0 [] raw).2 (take_fences 0 [] raw).1 := by
  have hcons : ∀ (html : List Char) (x y : Option (List (List Char))),
      x.map List.flatten = y.map List.flatten →
      (x.bind (fun rest => some (html :: rest))).map List.flatten =
        (y.bind (fun rest => some (html :: rest))).map List.flatten := by
    intro html x y h
    rcases x with _ | x <;> rcases y with _ | y <;> simp_all
  have hskip : ∀ (codeBlocks : List CodeBlock) (blocks : List (List Char)),
      (blocks.mapM (fun block =>
        if trim is_space block = [] then some []
        else block_html codeBlocks (trim is_space block))).map List.flatten =
      (((blocks.map (trim is_space)).filter (fun p => p ≠ [])).mapM (block_html codeBlocks)).map
        List.flatten := by
    intro codeBlocks blocks
    induction blocks with
    | nil => rfl
    | cons block blocks ih =>
      rw [List.mapM_cons, List.map_cons]
      by_cases hempty : trim is_space block = []
      · rw [if_pos hempty, List.filter_cons_of_neg (by simpa using hempty), ← ih]
        rcases blocks.mapM _ with _ | rest <;> rfl
      · rw [if_neg hempty, List.filter_cons_of_pos (by simpa using hempty), List.mapM_cons]
        rcases block_html codeBlocks (trim is_space block) with _ | html
        · rfl
        · exact hcons html _ _ ih
  unfold renderMarkdown shows paragraphs
  rw [← hskip]
  exact (Option.map_eq_bind ..).symm

theorem trim_newlines (k : Nat) (block : List Char) :
    trim is_space (List.replicate k '\n' ++ block) = trim is_space block :=
  trim_append_left (fun c hc => List.eq_of_mem_replicate hc ▸ by decide)

/-- Line ends before a block are no part of it. -/
theorem paragraphs_newlines (newlines k : Nat) (block text : List Char) :
    paragraphs newlines (List.replicate k '\n' ++ block) text = paragraphs newlines block text := by
  unfold paragraphs
  induction text generalizing newlines block with
  | nil =>
    unfold split_blocks
    split
    · simp only [List.map_cons, List.append_assoc, trim_newlines]
    · simp only [List.map_cons, trim_newlines]
  | cons c text ih =>
    unfold split_blocks
    split
    · exact ih (newlines + 1) block
    · split
      · simp only [List.append_assoc]
        exact ih 0 _
      · simp only [List.map_cons, trim_newlines]

theorem paragraphs_start (newlines : Nat) (text : List Char) :
    paragraphs newlines [] text = paragraphs 0 [] text := by
  have hempty : trim is_space [] = [] := rfl
  induction text generalizing newlines with
  | nil =>
    unfold paragraphs split_blocks
    split
    · have hblank := trim_newlines newlines []
      rw [List.append_nil] at hblank
      simp [hblank, hempty]
    · simp [hempty]
  | cons c text ih =>
    by_cases hc : c = '\n'
    · unfold paragraphs split_blocks
      rw [if_pos hc, if_pos hc]
      exact (ih (newlines + 1)).trans (ih 1).symm
    · have hgo : ∀ k, paragraphs k [] (c :: text) = paragraphs 0 [c] text := by
        intro k
        unfold paragraphs
        rw [split_blocks, if_neg hc]
        split
        · exact paragraphs_newlines 0 k [c] text
        · simp [hempty]
      rw [hgo, hgo]

theorem paragraphs_end (newlines : Nat) (block : List Char) :
    paragraphs newlines block [] = [trim is_space block].filter (fun p => p ≠ []) := by
  unfold paragraphs split_blocks
  split
  · have hblanks : ∀ c ∈ List.replicate newlines '\n', is_space c = true :=
      fun c hc => List.eq_of_mem_replicate hc ▸ by decide
    rw [List.map_singleton, trim_append_right hblanks]
  · have hempty : trim is_space [] = [] := rfl
    simp [hempty, List.filter_cons]

theorem paragraphs_cons {c : Char} (hc : c ≠ '\n') (text : List Char) :
    paragraphs 0 [] (c :: text) = paragraphs 0 [c] text := by
  unfold paragraphs
  rw [split_blocks, if_neg hc]
  rfl

/-- A blank line ends a block. -/
theorem paragraphs_blank {newlines : Nat} (h : 2 ≤ newlines) (block text : List Char) :
    paragraphs newlines block text = paragraphs newlines block [] ++ paragraphs 0 [] text := by
  induction text generalizing newlines with
  | nil => exact (List.append_nil _).symm
  | cons c text ih =>
    by_cases hc : c = '\n'
    · have hmore : ∀ k, paragraphs k block (c :: text) = paragraphs (k + 1) block text := by
        intro k
        unfold paragraphs
        rw [split_blocks, if_pos hc]
      have hstart : paragraphs 0 [] (c :: text) = paragraphs 0 [] text := by
        unfold paragraphs
        rw [split_blocks, if_pos hc]
        exact paragraphs_start 1 text
      rw [hmore, hstart, ih (by omega), paragraphs_end, paragraphs_end]
    · rw [paragraphs_cons hc, paragraphs_end]
      unfold paragraphs
      rw [split_blocks, if_neg hc, if_neg (by omega), List.map_cons, List.filter_cons,
        List.filter_cons]
      split <;> rfl

theorem paragraphs_append (newlines : Nat) (block a b : List Char) :
    paragraphs newlines block (a ++ '\n' :: '\n' :: b) =
      paragraphs newlines block a ++ paragraphs 0 [] b := by
  induction a generalizing newlines block with
  | nil =>
    have hmore : paragraphs newlines block ('\n' :: '\n' :: b) =
        paragraphs (newlines + 2) block b := by
      unfold paragraphs
      rw [split_blocks, if_pos rfl, split_blocks, if_pos rfl]
    rw [List.nil_append, hmore, paragraphs_blank (by omega), paragraphs_end, paragraphs_end]
  | cons c a ih =>
    unfold paragraphs at ih ⊢
    rw [List.cons_append, split_blocks, split_blocks]
    split
    · exact ih (newlines + 1) block
    · split
      · exact ih 0 _
      · rw [List.map_cons, List.map_cons, List.filter_cons, List.filter_cons, ih 0 [c]]
        split <;> rfl

theorem shows_append (codeBlocks : List CodeBlock) (a b : List Char) :
    shows codeBlocks (a ++ '\n' :: '\n' :: b) = (do
      let x ← shows codeBlocks a
      let y ← shows codeBlocks b
      return x ++ y) := by
  have hesc : esc (a ++ '\n' :: '\n' :: b) = esc a ++ '\n' :: '\n' :: esc b := by
    rw [esc_append]
    rfl
  unfold shows
  rw [hesc, paragraphs_append, List.mapM_append]
  rcases (paragraphs 0 [] (esc a)).mapM (block_html codeBlocks) with _ | x
  · rfl
  · rcases (paragraphs 0 [] (esc b)).mapM (block_html codeBlocks) with _ | y
    · rfl
    · simp

theorem slotted_paragraphs (newlines : Nat) {block text : List Char} (hblock : Slotted n block)
    (htext : Slotted n text) : ∀ p ∈ paragraphs newlines block text, Slotted n p := by
  intro p hp
  obtain ⟨piece, hpiece, rfl⟩ := List.mem_map.1 (List.mem_filter.1 hp).1
  exact slotted_trim (slotted_split newlines hblock htext piece hpiece)

/-- A text is shown if its placeholders have their blocks. -/
theorem shows_some {codeBlocks : List CodeBlock} {text : List Char}
    (h : Slotted codeBlocks.length text) : ∃ html, shows codeBlocks text = some html := by
  have hall : ∀ p ∈ paragraphs 0 [] (esc text), ∃ html, block_html codeBlocks p = some html :=
    fun p hp => block_html_some (slotted_paragraphs 0 .nil (slotted_esc h) p hp)
  obtain ⟨blocks, hblocks⟩ := exists_forall₂.2 hall
  exact ⟨blocks.flatten, by rw [shows, mapM_eq_some.2 hblocks]; rfl⟩

/-- A text without placeholders looks the same with all blocks. -/
theorem shows_congr {text : List Char} (h : '\ufffd' ∉ text) (codeBlocks others : List CodeBlock) :
    shows codeBlocks text = shows others text := by
  have hblock : ∀ p ∈ paragraphs 0 [] (esc text),
      block_html codeBlocks p = block_html others p := by
    intro p hp
    have hslotted : Slotted 0 p :=
      slotted_paragraphs 0 .nil (slotted_esc (slotted_of_no_replacement h)) p hp
    have hnone : placeholder_number p = none := by
      rcases hnumber : placeholder_number p with _ | k
      · rfl
      · exact absurd (placeholder_number_some hslotted hnumber) (Nat.not_lt_zero k)
    unfold block_html
    rw [hnone]
  have hmapM : ∀ ps : List (List Char), (∀ p ∈ ps, block_html codeBlocks p = block_html others p) →
      ps.mapM (block_html codeBlocks) = ps.mapM (block_html others) := by
    intro ps
    induction ps with
    | nil => exact fun _ => rfl
    | cons p ps ih =>
      intro hps
      rw [List.forall_mem_cons] at hps
      rw [List.mapM_cons, List.mapM_cons, hps.1, ih hps.2]
  unfold shows
  rw [hmapM _ hblock]

/-- An answer without replacement characters is shown, whatever its markdown. -/
theorem answers_without_replacement_characters_are_shown (raw : List Char) (h : '\ufffd' ∉ raw) :
    ∃ html, renderMarkdown raw = some html := by
  rw [renderMarkdown_eq]
  exact shows_some (slotted_take_fences 0 [] h)

theorem an_open_block_of_code_is_shown : ∃ html, renderMarkdown "```py\n\n# x".toList = some html :=
  answers_without_replacement_characters_are_shown "```py\n\n# x".toList (by decide)

/-- With a replacement character the text can look like a placeholder. -/
example : renderMarkdown (placeholder 0) = none := by decide

/-! ## A block of code between blank lines -/

theorem take_fences_skip (skip : Nat) (codeBlocks : List CodeBlock) (text : List Char) :
    take_fences skip codeBlocks text = take_fences 0 codeBlocks (text.drop skip) := by
  induction text generalizing skip with
  | nil =>
    rw [List.drop_nil]
    cases skip <;> rfl
  | cons c text ih =>
    rcases skip with _ | skip
    · rfl
    · exact ih skip

/-- A mark does not go over the end of a line. -/
theorem not_mark_of_line {a : List Char} (h : ¬fence_mark <:+: a) (rest : List Char) :
    ¬fence_mark <+: a ++ '\n' :: rest := by
  intro hmark
  obtain ⟨t, ht⟩ := hmark
  rcases List.append_eq_append_iff.1 ht with ⟨part, ha, -⟩ | ⟨part, ha, hpart⟩
  · exact h ⟨[], part, by simp [ha]⟩
  · rcases part with _ | ⟨c, part⟩
    · rw [List.append_nil] at ha
      exact h (ha ▸ List.infix_rfl)
    · cases hpart
      have hno : '\n' ∉ fence_mark := by decide
      exact hno (by simp [ha])

theorem take_fences_before (codeBlocks : List CodeBlock) {before : List Char}
    (h : ¬fence_mark <:+: before) (rest : List Char) :
    take_fences 0 codeBlocks (before ++ '\n' :: rest) =
      (before ++ '\n' :: (take_fences 0 codeBlocks rest).1, (take_fences 0 codeBlocks rest).2) := by
  induction before with
  | nil =>
    have hnone : fence ('\n' :: rest) = none := by
      have hnot : ¬fence_mark <+: '\n' :: rest := not_mark_of_line h rest
      rw [fence, if_neg hnot]
    rw [List.nil_append, take_fences, hnone]
    rfl
  | cons c before ih =>
    have hnone : fence (c :: before ++ '\n' :: rest) = none := by
      unfold fence
      rw [if_neg (not_mark_of_line h rest)]
    have hbefore : ¬fence_mark <:+: before :=
      fun hin => h (hin.trans (List.suffix_cons c before).isInfix)
    rw [List.cons_append] at hnone ⊢
    rw [take_fences, hnone]
    simp only [ih hbefore, List.cons_append]

theorem up_to_fence_eq {code : List Char} (h : ¬fence_mark <:+: code ++ "``".toList)
    (rest : List Char) : up_to_fence (code ++ fence_mark ++ rest) = some code := by
  induction code with
  | nil => rfl
  | cons c code ih =>
    have hnot : ¬fence_mark <+: c :: (code ++ fence_mark ++ rest) := by
      intro hmark
      have hlonger : c :: code ++ "``".toList <+: c :: (code ++ fence_mark ++ rest) :=
        ⟨'\x60' :: rest, by simp [fence_mark]⟩
      exact h (List.prefix_of_prefix_length_le hmark hlonger (by simp [fence_mark])).isInfix
    have hcode : ¬fence_mark <:+: code ++ "``".toList :=
      fun hin => h (hin.trans (List.suffix_cons c _).isInfix)
    rw [List.cons_append, List.cons_append, up_to_fence, if_neg hnot, ih hcode]
    rfl

theorem fence_eq {lang code : List Char} (hlang : ∀ c ∈ lang, is_word c = true)
    (hcode : ¬fence_mark <:+: code ++ "``".toList) (rest : List Char) :
    fence (fence_mark ++ (lang ++ '\n' :: (code ++ fence_mark ++ rest))) =
      some (⟨lang, code⟩, 3 + lang.length + 1 + code.length + 3) := by
  have hrun : (lang ++ '\n' :: (code ++ fence_mark ++ rest)).takeWhile is_word = lang := by
    rw [List.takeWhile_append_of_pos hlang, List.takeWhile_cons_of_neg (by decide), List.append_nil]
  have hthree : (fence_mark ++ (lang ++ '\n' :: (code ++ fence_mark ++ rest))).drop 3 =
      lang ++ '\n' :: (code ++ fence_mark ++ rest) := List.drop_left' rfl
  rw [fence, if_pos (List.prefix_append _ _)]
  simp only [← List.drop_drop, hthree, hrun, List.drop_left, List.head?_cons, if_true,
    List.drop_succ_cons, List.drop_zero, up_to_fence_eq hcode rest, Option.map_some]

/-- A block of code with its marks. -/
def fenced (block : CodeBlock) : List Char :=
  fence_mark ++ (block.lang ++ '\n' :: (block.code ++ fence_mark))

theorem take_fences_match {text : List Char} {block : CodeBlock} {k : Nat}
    (h : fence text = some (block, k)) (hk : 0 < k) (codeBlocks : List CodeBlock) :
    take_fences 0 codeBlocks text =
      (placeholder codeBlocks.length ++ (take_fences 0 (codeBlocks ++ [block]) (text.drop k)).1,
        (take_fences 0 (codeBlocks ++ [block]) (text.drop k)).2) := by
  rcases text with _ | ⟨c, cs⟩
  · cases h
  · obtain ⟨k, rfl⟩ : ∃ j, k = j + 1 := ⟨k - 1, by omega⟩
    rw [take_fences, h]
    simp only [Nat.add_sub_cancel, take_fences_skip k, List.drop_succ_cons]

theorem take_fences_fenced {block : CodeBlock} (hlang : ∀ c ∈ block.lang, is_word c = true)
    (hcode : ¬fence_mark <:+: block.code ++ "``".toList) (codeBlocks : List CodeBlock)
    (rest : List Char) :
    take_fences 0 codeBlocks (fenced block ++ rest) =
      (placeholder codeBlocks.length ++ (take_fences 0 (codeBlocks ++ [block]) rest).1,
        (take_fences 0 (codeBlocks ++ [block]) rest).2) := by
  have hfence : fence (fenced block ++ rest) =
      some (block, 3 + block.lang.length + 1 + block.code.length + 3) := by
    simpa [fenced] using fence_eq hlang hcode rest
  have hlength : (fenced block).length = 3 + block.lang.length + 1 + block.code.length + 3 := by
    simp [fenced, fence_mark]
    omega
  rw [take_fences_match hfence (by omega), List.drop_left' hlength]

/-- A placeholder is a paragraph. -/
theorem shows_placeholder {codeBlocks : List CodeBlock} {i : Nat} {block : CodeBlock}
    (h : codeBlocks[i]? = some block) :
    shows codeBlocks (placeholder i) = some (code_html block) := by
  have hpieces : split_blocks 0 [] (placeholder i) = [placeholder i] := by
    have hrun := split_blocks_run 0 [] [] (by simp [placeholder]) (newline_not_mem_placeholder i)
    rw [List.append_nil] at hrun
    rw [hrun]
    simp [split_blocks]
  have htrim : trim is_space (placeholder i) = placeholder i := by
    apply trim_of_trimmed
    constructor
    · exact fun c hc => (of_mem_placeholder (List.mem_of_mem_head? hc)).1
    · exact fun c hc => (of_mem_placeholder (List.mem_of_getLast? hc)).1
  have hparagraphs : paragraphs 0 [] (esc (placeholder i)) = [placeholder i] := by
    rw [esc_placeholder, paragraphs, hpieces, List.map_singleton, htrim]
    simp [placeholder]
  have hnumber : placeholder_number (placeholder i) = some i := by
    have hne : Nat.toDigits 10 i ≠ [] := Nat.toDigits_ne_nil
    simp only [placeholder, List.cons_append, placeholder_number, digits_of_placeholder,
      List.drop_left, hne, Nat.ofDigitChars_ten_toDigits, ne_eq, not_false_eq_true, and_self,
      if_true]
  unfold shows
  rw [hparagraphs, List.mapM_cons, List.mapM_nil]
  unfold block_html
  simp [hnumber, h]

/-! ## What the reader sees -/

/-- A text with what its references stand for. `esc` writes no others. -/
def resolved : List Char → List Char
  | '&' :: 'a' :: 'm' :: 'p' :: ';' :: cs => '&' :: resolved cs
  | '&' :: 'l' :: 't' :: ';' :: cs => '<' :: resolved cs
  | '&' :: 'g' :: 't' :: ';' :: cs => '>' :: resolved cs
  | '&' :: 'q' :: 'u' :: 'o' :: 't' :: ';' :: cs => '"' :: resolved cs
  | '&' :: '#' :: '3' :: '9' :: ';' :: cs => '\'' :: resolved cs
  | c :: cs => c :: resolved cs
  | [] => []

theorem resolved_escaped (c : Char) (rest : List Char) :
    resolved (escaped c ++ rest) = c :: resolved rest := by
  unfold escaped
  split
  case h_6 hamp _ _ _ _ =>
    rw [List.singleton_append, resolved]
    all_goals rintro _ rfl; exact absurd rfl hamp
  all_goals rfl

theorem resolved_esc (s : List Char) : resolved (esc s) = s := by
  induction s with
  | nil => rfl
  | cons c s ih => rw [esc, List.flatMap_cons, resolved_escaped, ← esc, ih]

/-- The line ends of markup as a browser reads them. -/
def line_ends : List Char → List Char
  | [] => []
  | '\r' :: '\n' :: cs => '\n' :: line_ends cs
  | '\r' :: cs => '\n' :: line_ends cs
  | c :: cs => c :: line_ends cs

theorem line_ends_of_no_return {cs : List Char} (h : '\r' ∉ cs) : line_ends cs = cs := by
  induction cs with
  | nil => rfl
  | cons c cs ih =>
    rw [List.mem_cons, not_or] at h
    rw [line_ends, ih h.2]
    · exact fun rest he => absurd he.symm h.1
    · exact fun hc => h.1 hc.symm

/-- The text that a browser shows for markup, from which it leaves out null characters. -/
def shown (html : List Char) : Option (List Char) :=
  (tokens (line_ends html)).map (fun ts => resolved ((text_of ts).filter (fun c => c ≠ '\x00')))

theorem no_return_in_code_html {block : CodeBlock} (hlang : '\r' ∉ block.lang)
    (hcode : '\r' ∉ block.code) : '\r' ∉ code_html block := by
  have hesc := not_mem_esc (by decide) hcode
  unfold code_html
  split <;> simp [hesc, hlang]

theorem shown_code {block : CodeBlock} (h : '"' ∉ block.lang) (hlang : '\r' ∉ block.lang)
    (hreturn : '\r' ∉ block.code) (hnull : '\x00' ∉ block.code) :
    shown (code_html block) = some block.code := by
  have hquotable : Quotable (code_attributes block) := by
    have hnames : ∀ a ∈ ["class", "title"].map String.toList, Name a := by decide
    intro a ha
    exact ⟨hnames a.1 (code_attributes_quiet h a ha).1, (code_attributes_quiet h a ha).2⟩
  have htokens : tokens (code_html block) =
      some ([.StartTag "pre".toList []] ++ ([.StartTag "code".toList (code_attributes block)] ++
        ((esc block.code).map .Text ++ ([.EndTag "code".toList] ++ [.EndTag "pre".toList])))) := by
    rw [code_html_eq]
    apply tokens_append (tokens_opened (by decide) (by decide) quotable_nil)
    apply tokens_append (tokens_opened (by decide) (by decide) hquotable)
    apply tokens_append (tokens_text (plain_esc block.code).no_tag)
    exact tokens_append (tokens_closed (by decide)) (tokens_closed (by decide))
  have htext : ∀ attributes : Attributes, text_of ([.StartTag "pre".toList []] ++
      ([.StartTag "code".toList attributes] ++ ((esc block.code).map .Text ++
        ([.EndTag "code".toList] ++ [.EndTag "pre".toList])))) = esc block.code := by
    intro attributes
    rw [text_of_append, text_of_append, text_of_append, text_of_append, text_of_text]
    exact List.append_nil _
  have hkept : (esc block.code).filter (fun c => c ≠ '\x00') = esc block.code := by
    refine List.filter_eq_self.2 (fun c hc => decide_eq_true ?_)
    rintro rfl
    exact not_mem_esc (by decide) hnull hc
  rw [shown, line_ends_of_no_return (no_return_in_code_html hlang hreturn), htokens,
    Option.map_some, htext, hkept, resolved_esc]

/-- The text ends with a blank line, or it is empty. -/
def OpensBlock (before : List Char) : Prop := before = [] ∨ ['\n', '\n'] <:+ before

/-- The text starts with a blank line, or it is empty. -/
def ClosesBlock (after : List Char) : Prop := after = [] ∨ ['\n', '\n'] <+: after

theorem blank_line_kept (codeBlocks : List CodeBlock) {before : List Char}
    (h : ¬fence_mark <:+: before) (rest : List Char) :
    take_fences 0 codeBlocks (before ++ '\n' :: '\n' :: rest) =
      (before ++ '\n' :: '\n' :: (take_fences 0 codeBlocks rest).1,
        (take_fences 0 codeBlocks rest).2) := by
  have hnext := @take_fences_before codeBlocks [] (by decide) rest
  rw [List.nil_append, List.nil_append] at hnext
  rw [take_fences_before codeBlocks h, hnext]

theorem shows_fenced {block : CodeBlock} {after : List Char} (hafter : '\ufffd' ∉ after)
    (hcloses : ClosesBlock after) (hlang : ∀ c ∈ block.lang, is_word c = true)
    (hcode : ¬fence_mark <:+: block.code ++ "``".toList) :
    ∃ rest, shows (take_fences 0 [] (fenced block ++ after)).2
      (take_fences 0 [] (fenced block ++ after)).1 = some (code_html block ++ rest) := by
  rw [take_fences_fenced hlang hcode]
  obtain rfl | ⟨after, rfl⟩ := hcloses
  · refine ⟨[], ?_⟩
    rw [List.append_nil]
    exact (congrArg (shows [block]) (List.append_nil _)).trans (shows_placeholder rfl)
  · have hkept := @blank_line_kept [block] [] (by decide) after
    rw [List.nil_append, List.nil_append] at hkept
    have hplain : '\ufffd' ∉ after := fun h => hafter (List.mem_append_right _ h)
    obtain ⟨rest, hrest⟩ := shows_some (slotted_take_fences 0 [block] hplain)
    obtain ⟨others, hothers⟩ := take_fences_begins 0 [block] after
    refine ⟨rest, ?_⟩
    simp only [List.nil_append, List.cons_append, List.length_nil, hkept, shows_append]
    have hfirst : (take_fences 0 [block] after).2[0]? = some block := by
      rw [← hothers]
      rfl
    rw [shows_placeholder hfirst, hrest]
    rfl

/-- A block of code between blank lines is shown with its text, if no mark of a
fence stands before it. -/
theorem a_block_of_code_is_shown_as_written (before after : List Char) (block : CodeBlock)
    (hbefore : '\ufffd' ∉ before) (hafter : '\ufffd' ∉ after) (hfree : ¬fence_mark <:+: before)
    (hopens : OpensBlock before) (hcloses : ClosesBlock after)
    (hlang : ∀ c ∈ block.lang, is_word c = true)
    (hcode : ¬fence_mark <:+: block.code ++ "``".toList) (hreturn : '\r' ∉ block.code)
    (hnull : '\x00' ∉ block.code) :
    ∃ first rest, renderMarkdown before = some first ∧
      renderMarkdown (before ++ fenced block ++ after) = some (first ++ code_html block ++ rest) ∧
      shown (code_html block) = some block.code := by
  have hname : ∀ c, is_word c = false → c ∉ block.lang := by
    intro c hc hmem
    rw [hlang c hmem] at hc
    cases hc
  have hshown : shown (code_html block) = some block.code :=
    shown_code (hname _ quote_not_word) (hname _ (by decide)) hreturn hnull
  obtain ⟨rest, hrest⟩ := shows_fenced hafter hcloses hlang hcode
  obtain rfl | ⟨before, rfl⟩ := hopens
  · refine ⟨[], rest, rfl, ?_, hshown⟩
    rw [renderMarkdown_eq]
    exact hrest
  · have hfree : ¬fence_mark <:+: before :=
      fun h => hfree (h.trans (List.prefix_append _ _).isInfix)
    have hplain : '\ufffd' ∉ before := fun h => hbefore (List.mem_append_left _ h)
    obtain ⟨first, hfirst⟩ := @shows_some [] before (slotted_of_no_replacement hplain)
    refine ⟨first, rest, ?_, ?_, hshown⟩
    · have hkept := blank_line_kept [] hfree []
      have hempty : shows [] [] = some [] := rfl
      have hsplit : before ++ ['\n', '\n'] = before ++ '\n' :: '\n' :: [] := rfl
      rw [renderMarkdown_eq, hsplit, hkept, shows_append]
      change (do
        let x ← shows [] before
        let y ← shows [] []
        return x ++ y) = some first
      rw [hfirst, hempty]
      simp
    · have htext : before ++ ['\n', '\n'] ++ fenced block ++ after =
          before ++ '\n' :: '\n' :: (fenced block ++ after) := by simp
      rw [renderMarkdown_eq, htext, blank_line_kept [] hfree, shows_append,
        shows_congr hplain _ [], hfirst, hrest]
      simp

def comparison : CodeBlock := ⟨"py".toList, "if x < 1:\n".toList⟩

theorem a_comparison_in_a_block_is_shown :
    ∃ first rest, renderMarkdown "Write:\n\n".toList = some first ∧
      renderMarkdown ("Write:\n\n".toList ++ fenced comparison ++ "\n\n*Done*".toList) =
        some (first ++ code_html comparison ++ rest) ∧
      shown (code_html comparison) = some comparison.code :=
  a_block_of_code_is_shown_as_written "Write:\n\n".toList "\n\n*Done*".toList comparison
    (by decide) (by decide) (by decide +kernel) (Or.inr (by decide)) (Or.inr (by decide))
    (List.all_eq_true.1 (by decide)) (by decide +kernel) (by decide) (by decide)

/-- A block that stands in a line is not shown. -/
example : (renderMarkdown ("see ".toList ++ fenced ⟨[], "x".toList⟩)) =
    some ("<p>see ".toList ++ placeholder 0 ++ "</p>".toList) := by decide

end cortex_rag.web
