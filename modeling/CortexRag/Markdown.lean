-- What the page of the web client (web/index.html) writes as markup: texts that are
-- escaped, and answers whose markdown becomes HTML. A text is a list of characters.
import CortexRag.TrimmedLists

namespace cortex_rag.web

/-! ## Classes of characters -/

/-- `\s`, and what `trim` takes away. -/
def is_space (c : Char) : Bool :=
  decide (c ∈ ['\t', '\n', '\x0b', '\x0c', '\r', ' ', '\u00a0', '\u1680', '\u2028', '\u2029',
    '\u202f', '\u205f', '\u3000', '\ufeff'] ∨ (0x2000 ≤ c.toNat ∧ c.toNat ≤ 0x200a))

/-- `\w`. -/
def is_word (c : Char) : Bool := c.isAlphanum || c = '_'

/-- What `.` does not match. -/
def ends_line (c : Char) : Bool := decide (c ∈ ['\n', '\r', '\u2028', '\u2029'])

/-! ## Texts that are shown as they are -/

def escaped (c : Char) : List Char :=
  match c with
  | '&' => "&amp;".toList
  | '<' => "&lt;".toList
  | '>' => "&gt;".toList
  | '"' => "&quot;".toList
  | '\'' => "&#39;".toList
  | c => [c]

def esc (s : List Char) : List Char := s.flatMap escaped

/-! ## `replace` with the flag `g` -/

/-- The replacement of a match at the start of the text, with the length of the match,
which is not 0. The first argument is the character before, if there is one. -/
abbrev Regex := Option Char → List Char → Option (List Char × Nat)

/-- The matches are taken from left to right; a character of a match is skipped. -/
def replace_from (found : Regex) : Nat → Option Char → List Char → List Char
  | _, _, [] => []
  | skip + 1, _, c :: cs => replace_from found skip (some c) cs
  | 0, before, c :: cs =>
    match found before (c :: cs) with
    | some (put, n) => put ++ replace_from found (n - 1) (some c) cs
    | none => c :: replace_from found 0 (some c) cs

def replace_all (found : Regex) (text : List Char) : List Char := replace_from found 0 none text

/-- A run of characters of the class between two marks. The class has no character of
the mark, so the run is as long as it can be. -/
def between (mark : List Char) (inside : Char → Bool) (text : List Char) : Option (List Char) :=
  let body := text.drop mark.length
  let run := body.takeWhile inside
  if mark <+: text ∧ run ≠ [] ∧ mark <+: body.drop run.length then some run else none

/-! ## Markdown inside a line -/

/-- `https?:\/\/`, as a number of characters. -/
def scheme (text : List Char) : Option Nat :=
  if "http://".toList <+: text then some 7
  else if "https://".toList <+: text then some 8
  else none

/-- `https?:\/\/[^\s)]+`. -/
def web_address (text : List Char) : Option (List Char) :=
  match scheme text with
  | none => none
  | some n =>
    let run := (text.drop n).takeWhile (fun c => !is_space c && c ≠ ')')
    if run = [] then none else some (text.take n ++ run)

/-- `<a …>`. -/
def link_tag (url target : List Char) : List Char :=
  "<a href=\"".toList ++ url ++ "\" target=\"".toList ++ target ++
    "\" rel=\"noopener noreferrer\">".toList

/-- `\[([^\]]+)\]\((https?:\/\/[^\s)]+)\)`. -/
def link : Regex := fun _ text =>
  match text with
  | '[' :: body =>
    let label := body.takeWhile (fun c => c ≠ ']')
    let address := body.drop (label.length + 2)
    if label ≠ [] ∧ "](".toList <+: body.drop label.length then
      match web_address address with
      | some url =>
        if ")".toList <+: address.drop url.length then
          some (link_tag url "_blank".toList ++ label ++ "</a>".toList,
            label.length + url.length + 4)
        else none
      | none => none
    else none
  | _ => none

/-- `\*\*([^*]+)\*\*` and its like. -/
def marked (mark : List Char) (inside : Char → Bool) (tag : String × String) : Regex :=
  fun _ text =>
    (between mark inside text).map (fun run =>
      (tag.1.toList ++ run ++ tag.2.toList, mark.length + run.length + mark.length))

def strong : String × String := ("<strong>", "</strong>")

def em : String × String := ("<em>", "</em>")

def code : String × String := ("<code>", "</code>")

/-- `(^|[^\w])_([^_\n]+)_(?=$|[^\w])`. -/
def underscored : Regex := fun before text =>
  -- at the start of the text `^` matches before a mark
  let lead := if before = none ∧ text.head? = some '_' then [] else text.take 1
  if lead.any is_word then none
  else
    match between ['_'] (fun c => c ≠ '_' && c ≠ '\n') (text.drop lead.length) with
    | some run =>
      if (text.drop (lead.length + run.length + 2)).head?.all (fun c => !is_word c) then
        some (lead ++ em.1.toList ++ run ++ em.2.toList, lead.length + run.length + 2)
      else none
    | none => none

def backticks : Regex := marked "`".toList (fun c => c ≠ '\x60') code

def inlineMd (text : List Char) : List Char :=
  let text := replace_all link text
  let text := replace_all (marked "**".toList (fun c => c ≠ '*') strong) text
  let text := replace_all (marked "__".toList (fun c => c ≠ '_') strong) text
  let text := replace_all (marked "*".toList (fun c => c ≠ '*' && c ≠ '\n') em) text
  let text := replace_all underscored text
  replace_all backticks text

def fmt (s : List Char) : List Char := replace_all backticks (esc s)

/-! ## Blocks of code -/

structure CodeBlock where
  lang : List Char
  code : List Char
deriving DecidableEq

def fence_mark : List Char := "```".toList

/-- The text up to the first mark. -/
def up_to_fence : List Char → Option (List Char)
  | [] => none
  | c :: cs =>
    if fence_mark <+: c :: cs then some []
    else (up_to_fence cs).map (c :: ·)

/-- ```` ```(\w*)\n?([\s\S]*?)``` ````, with the length of the match. -/
def fence (text : List Char) : Option (CodeBlock × Nat) :=
  if fence_mark <+: text then
    let lang := (text.drop 3).takeWhile is_word
    let body := text.drop (3 + lang.length)
    let newline := if body.head? = some '\n' then 1 else 0
    (up_to_fence (body.drop newline)).map (fun code =>
      ({ lang, code }, 3 + lang.length + newline + code.length + 3))
  else none

/-- `\0CB<n>\0`. The null characters stand in the script of the page itself, where a
browser reads U+FFFD for each. -/
def placeholder (n : Nat) : List Char :=
  '\ufffd' :: 'C' :: 'B' :: Nat.toDigits 10 n ++ ['\ufffd']

/-- The text with a placeholder for each block of code, and the blocks. -/
def take_fences : Nat → List CodeBlock → List Char → List Char × List CodeBlock
  | _, codeBlocks, [] => ([], codeBlocks)
  | skip + 1, codeBlocks, _ :: cs => take_fences skip codeBlocks cs
  | 0, codeBlocks, c :: cs =>
    match fence (c :: cs) with
    | some (block, n) =>
      let r := take_fences (n - 1) (codeBlocks ++ [block]) cs
      (placeholder codeBlocks.length ++ r.1, r.2)
    | none =>
      let r := take_fences 0 codeBlocks cs
      (c :: r.1, r.2)

/-- `^\0CB(\d+)\0$`, as the number. -/
def placeholder_number (text : List Char) : Option Nat :=
  match text with
  | '\ufffd' :: 'C' :: 'B' :: rest =>
    let digits := rest.takeWhile Char.isDigit
    if digits ≠ [] ∧ rest.drop digits.length = ['\ufffd'] then some (Nat.ofDigitChars 10 digits 0)
    else none
  | _ => none

def code_html (block : CodeBlock) : List Char :=
  let cls := if block.lang = [] then [] else " class=\"lang-".toList ++ block.lang ++ ['"']
  "<pre><code".toList ++ cls ++ ">".toList ++ esc block.code ++ "</code></pre>".toList

/-! ## Blocks of text -/

/-- `split(/\n{2,}/)`. `newlines` line ends stand after the block so far. -/
def split_blocks : Nat → List Char → List Char → List (List Char)
  | newlines, block, [] =>
    if newlines < 2 then [block ++ List.replicate newlines '\n'] else [block, []]
  | newlines, block, c :: cs =>
    if c = '\n' then split_blocks (newlines + 1) block cs
    else if newlines < 2 then split_blocks 0 (block ++ List.replicate newlines '\n' ++ [c]) cs
    else block :: split_blocks 0 [c] cs

/-- `^(#{1,6})\s+(.*)$`, as the level and the title. -/
def header (text : List Char) : Option (Nat × List Char) :=
  let level := ((text.takeWhile (fun c => c = '#')).take 6).length
  let rest := text.drop level
  let title := rest.dropWhile is_space
  if 0 < level ∧ rest.head?.any is_space ∧ ¬title.any ends_line then some (level, title) else none

/-- `^&gt;\s?`, as what follows it. -/
def quote (line : List Char) : Option (List Char) :=
  if "&gt;".toList <+: line then
    let rest := line.drop 4
    some (if rest.head?.any is_space then rest.drop 1 else rest)
  else none

/-- `^[-*]\s+`, as what follows it. -/
def bullet (line : List Char) : Option (List Char) :=
  if line.head?.any (fun c => c = '-' || c = '*') ∧ (line.drop 1).head?.any is_space then
    some ((line.drop 1).dropWhile is_space)
  else none

/-- `^\d+\.\s+`, as what follows it. -/
def numbered (line : List Char) : Option (List Char) :=
  let digits := line.takeWhile Char.isDigit
  let rest := line.drop (digits.length + 1)
  if digits ≠ [] ∧ (line.drop digits.length).head? = some '.' ∧ rest.head?.any is_space then
    some (rest.dropWhile is_space)
  else none

/-- `replace(/\n/g, "<br>")`. -/
def breaks (text : List Char) : List Char :=
  text.flatMap (fun c => if c = '\n' then "<br>".toList else [c])

/-- The element of a name around a text. -/
def element (name : String) (text : List Char) : List Char :=
  ("<" ++ name ++ ">").toList ++ text ++ ("</" ++ name ++ ">").toList

def items (lines : List (List Char)) : List Char :=
  (lines.map (fun line => element "li" (inlineMd line))).flatten

/-- A block that is not empty. A placeholder of no block of code is a `TypeError`. -/
def block_html (codeBlocks : List CodeBlock) (trimmed : List Char) : Option (List Char) :=
  match placeholder_number trimmed with
  | some n => codeBlocks[n]?.map code_html
  | none =>
    let lines := trimmed.splitOn '\n'
    match (if lines.length = 1 then header trimmed else none) with
    | some (level, title) => some (element ("h" ++ toString level) (inlineMd title))
    | none =>
      match lines.mapM quote with
      | some inner => some (element "blockquote" (breaks (inlineMd (['\n'].intercalate inner))))
      | none =>
        match lines.mapM bullet with
        | some texts => some (element "ul" (items texts))
        | none =>
          match lines.mapM numbered with
          | some texts => some (element "ol" (items texts))
          | none => some (element "p" (breaks (inlineMd trimmed)))

/-- `none` is an exception. -/
def renderMarkdown (raw : List Char) : Option (List Char) := do
  let (src, codeBlocks) := take_fences 0 [] raw
  let blocks ← (split_blocks 0 [] (esc src)).mapM (fun block =>
    let trimmed := trimmed_lists.trim is_space block
    if trimmed = [] then some [] else block_html codeBlocks trimmed)
  return blocks.flatten

end cortex_rag.web
