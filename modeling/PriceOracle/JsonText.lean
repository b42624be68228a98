import Mathlib.Data.List.Basic
import Mathlib.Tactic

/-!
# The extent of a JSON text

The JSON grammar over characters, and a scanner that follows only brackets and strings. The
scanner finds the end of an object or an array without looking at what follows it, so no such
text is a proper prefix of another.
-/

namespace PriceOracle

namespace JsonText

section Definitions

def isSpace (c : Char) : Bool := c == ' ' || c == '\t' || c == '\n' || c == '\r'

def isOpening (c : Char) : Bool := c == '\x7b' || c == '['

def isClosing (c : Char) : Bool := c == '\x7d' || c == ']'

/-- The characters of numbers and of the three names. -/
def isScalar (c : Char) : Bool := c.isAlphanum || c == '+' || c == '-' || c == '.'

def Spaces (text : List Char) : Prop := ∀ c ∈ text, isSpace c = true

/-- What stands between the quotes of a string: a backslash takes the next character with it. -/
inductive StringBody : List Char → Prop
  | nil : StringBody []
  | char {c : Char} {body : List Char} (hquote : c ≠ '"') (hbackslash : c ≠ '\\') (hbody : StringBody body) :
    StringBody (c :: body)
  | escape {c : Char} {body : List Char} (hbody : StringBody body) : StringBody ('\\' :: c :: body)

inductive Part where
  | value
  | element
  | elements
  | members

/-- The texts of each part: an element is a value with space around it. -/
inductive Grammar : Part → List Char → Prop
  | scalar {text : List Char} (hne : text ≠ []) (hscalar : ∀ c ∈ text, isScalar c = true) : Grammar .value text
  | string {body : List Char} (hbody : StringBody body) : Grammar .value ('"' :: (body ++ ['"']))
  | emptyObject {space : List Char} (hspace : Spaces space) : Grammar .value ('\x7b' :: (space ++ ['\x7d']))
  | object {text : List Char} (hmembers : Grammar .members text) : Grammar .value ('\x7b' :: (text ++ ['\x7d']))
  | emptyArray {space : List Char} (hspace : Spaces space) : Grammar .value ('[' :: (space ++ [']']))
  | array {text : List Char} (helements : Grammar .elements text) : Grammar .value ('[' :: (text ++ [']']))
  | element {before text after : List Char} (hbefore : Spaces before) (htext : Grammar .value text)
    (hafter : Spaces after) : Grammar .element (before ++ (text ++ after))
  | lastElement {text : List Char} (htext : Grammar .element text) : Grammar .elements text
  | nextElement {text rest : List Char} (htext : Grammar .element text) (hrest : Grammar .elements rest) :
    Grammar .elements (text ++ ',' :: rest)
  | lastMember {before key after text : List Char} (hbefore : Spaces before) (hkey : StringBody key)
    (hafter : Spaces after) (htext : Grammar .element text) :
    Grammar .members (before ++ '"' :: (key ++ '"' :: (after ++ ':' :: text)))
  | nextMember {text rest : List Char} (htext : Grammar .members text) (hrest : Grammar .members rest) :
    Grammar .members (text ++ ',' :: rest)

/-- An object or an array. -/
def Structured (text : List Char) : Prop :=
  Grammar .value text ∧ ∃ c tail, text = c :: tail ∧ isOpening c = true

inductive Mode where
  | outside
  | inside
  | escaped

/-- What follows the bracket that closes the outermost of `depth + 1` open ones. -/
def scan : Mode → ℕ → List Char → Option (List Char)
  | _, _, [] => none
  | .escaped, depth, _ :: text => scan .inside depth text
  | .inside, depth, c :: text =>
    if c = '"' then scan .outside depth text
    else if c = '\\' then scan .escaped depth text
    else scan .inside depth text
  | .outside, depth, c :: text =>
    if c = '"' then scan .inside depth text
    else if isOpening c then scan .outside (depth + 1) text
    else if isClosing c then
      if depth = 0 then some text else scan .outside (depth - 1) text
    else scan .outside depth text

end Definitions

theorem stringBody_of_plain {body : List Char} (h : ∀ c ∈ body, c ≠ '"' ∧ c ≠ '\\') : StringBody body := by
  induction body with
  | nil => exact .nil
  | cons c body ih =>
    obtain ⟨hquote, hbackslash⟩ := h c List.mem_cons_self
    exact .char hquote hbackslash (ih fun c hc => h c (List.mem_cons_of_mem _ hc))

section Scanner

theorem scan_outside (depth : ℕ) (c : Char) (text : List Char) : scan .outside depth (c :: text) =
    if c = '"' then scan .inside depth text
    else if isOpening c then scan .outside (depth + 1) text
    else if isClosing c then
      if depth = 0 then some text else scan .outside (depth - 1) text
    else scan .outside depth text := rfl

theorem scan_inside (depth : ℕ) (c : Char) (text : List Char) : scan .inside depth (c :: text) =
    if c = '"' then scan .outside depth text
    else if c = '\\' then scan .escaped depth text
    else scan .inside depth text := rfl

theorem scan_escaped (depth : ℕ) (c : Char) (text : List Char) : scan .escaped depth (c :: text) = scan .inside depth text :=
  rfl

/-- Neither a quote nor a bracket. -/
def isPlain (c : Char) : Bool := c != '"' && !isOpening c && !isClosing c

theorem isPlain_of_isSpace {c : Char} (hc : isSpace c = true) : isPlain c = true := by
  unfold isSpace at hc
  simp only [Bool.or_eq_true, beq_iff_eq] at hc
  rcases hc with ((rfl | rfl) | rfl) | rfl <;> decide

theorem isPlain_of_isScalar {c : Char} (hc : isScalar c = true) : isPlain c = true := by
  unfold isPlain isOpening isClosing
  by_contra hplain
  simp only [Bool.not_eq_true, Bool.and_eq_false_iff, bne_eq_false_iff_eq, Bool.not_eq_false', Bool.or_eq_true,
    beq_iff_eq] at hplain
  rcases hplain with (rfl | rfl | rfl) | rfl | rfl <;> exact absurd hc (by decide)

theorem scan_plain {text : List Char} (htext : ∀ c ∈ text, isPlain c = true) (depth : ℕ) (more : List Char) :
    scan .outside depth (text ++ more) = scan .outside depth more := by
  induction text with
  | nil => rfl
  | cons c text ih =>
    have hplain := htext c List.mem_cons_self
    unfold isPlain at hplain
    simp only [Bool.and_eq_true, bne_iff_ne, Bool.not_eq_true'] at hplain
    obtain ⟨⟨hquote, hopening⟩, hclosing⟩ := hplain
    rw [List.cons_append, scan_outside, if_neg hquote, if_neg (by simp [hopening]), if_neg (by simp [hclosing])]
    exact ih fun c hc => htext c (List.mem_cons_of_mem _ hc)

theorem scan_spaces {space : List Char} (hspace : Spaces space) (depth : ℕ) (more : List Char) :
    scan .outside depth (space ++ more) = scan .outside depth more :=
  scan_plain (fun c hc => isPlain_of_isSpace (hspace c hc)) depth more

/-- The closing quote is the first one that no backslash precedes. -/
theorem scan_body {body : List Char} (hbody : StringBody body) (depth : ℕ) (more : List Char) :
    scan .inside depth (body ++ '"' :: more) = scan .outside depth more := by
  induction hbody with
  | nil => rfl
  | char hquote hbackslash _ ih =>
    rw [List.cons_append, scan_inside, if_neg hquote, if_neg hbackslash]
    exact ih
  | escape _ ih =>
    rw [List.cons_append, List.cons_append, scan_inside, if_neg (by decide), if_pos rfl, scan_escaped]
    exact ih

theorem scan_string {body : List Char} (hbody : StringBody body) (depth : ℕ) (more : List Char) :
    scan .outside depth ('"' :: (body ++ '"' :: more)) = scan .outside depth more := by
  rw [scan_outside, if_pos rfl, scan_body hbody]

theorem scan_opening {c : Char} (hc : isOpening c = true) (depth : ℕ) (text : List Char) :
    scan .outside depth (c :: text) = scan .outside (depth + 1) text := by
  have hquote : c ≠ '"' := by
    rintro rfl
    exact absurd hc (by decide)
  rw [scan_outside, if_neg hquote, if_pos hc]

theorem scan_closing {c : Char} (hc : isClosing c = true) (depth : ℕ) (text : List Char) :
    scan .outside (depth + 1) (c :: text) = scan .outside depth text := by
  have hother : c ≠ '"' ∧ isOpening c = false := by
    unfold isClosing at hc
    simp only [Bool.or_eq_true, beq_iff_eq] at hc
    rcases hc with rfl | rfl <;> decide
  rw [scan_outside, if_neg hother.1, if_neg (by simp [hother.2]), if_pos hc, if_neg (Nat.succ_ne_zero depth),
    Nat.add_sub_cancel]

theorem scan_last {c : Char} (hc : isClosing c = true) (text : List Char) :
    scan .outside 0 (c :: text) = some text := by
  have hother : c ≠ '"' ∧ isOpening c = false := by
    unfold isClosing at hc
    simp only [Bool.or_eq_true, beq_iff_eq] at hc
    rcases hc with rfl | rfl <;> decide
  rw [scan_outside, if_neg hother.1, if_neg (by simp [hother.2]), if_pos hc, if_pos rfl]

/-- Every part leaves the scanner as it was, by induction on its derivation. -/
theorem scan_grammar {part : Part} {text : List Char} (h : Grammar part text) :
    ∀ (depth : ℕ) (more : List Char), scan .outside depth (text ++ more) = scan .outside depth more := by
  have hbracket {opening closing : Char} {inner : List Char} (hopening : isOpening opening = true)
      (hclosing : isClosing closing = true)
      (hinner : ∀ (depth : ℕ) (more : List Char), scan .outside depth (inner ++ more) = scan .outside depth more)
      (depth : ℕ) (more : List Char) :
      scan .outside depth (opening :: (inner ++ [closing]) ++ more) = scan .outside depth more := by
    rw [List.cons_append, List.append_assoc, scan_opening hopening, hinner]
    exact scan_closing hclosing depth more
  have hcomma (depth : ℕ) (more : List Char) : scan .outside depth (',' :: more) = scan .outside depth more :=
    @scan_plain [','] (List.forall_mem_singleton.mpr rfl) depth more
  have hcolon (depth : ℕ) (more : List Char) : scan .outside depth (':' :: more) = scan .outside depth more :=
    @scan_plain [':'] (List.forall_mem_singleton.mpr rfl) depth more
  induction h with
  | scalar _ hscalar => exact scan_plain fun c hc => isPlain_of_isScalar (hscalar c hc)
  | string hbody =>
    intro depth more
    rw [List.cons_append, List.append_assoc]
    exact scan_string hbody depth more
  | emptyObject hspace => exact hbracket (by decide) (by decide) (scan_spaces hspace)
  | object _ ih => exact hbracket (by decide) (by decide) ih
  | emptyArray hspace => exact hbracket (by decide) (by decide) (scan_spaces hspace)
  | array _ ih => exact hbracket (by decide) (by decide) ih
  | element hbefore _ hafter ih =>
    intro depth more
    rw [List.append_assoc, List.append_assoc, scan_spaces hbefore, ih, scan_spaces hafter]
  | lastElement _ ih => exact ih
  | nextElement _ _ ih ihrest =>
    intro depth more
    rw [List.append_assoc, ih, List.cons_append, hcomma, ihrest]
  | lastMember hbefore hkey hafter _ ih =>
    intro depth more
    rw [List.append_assoc, scan_spaces hbefore, List.cons_append, List.append_assoc, List.cons_append,
      scan_string hkey, List.append_assoc, scan_spaces hafter, List.cons_append, hcolon, ih]
  | nextMember _ _ ih ihrest =>
    intro depth more
    rw [List.append_assoc, ih, List.cons_append, hcomma, ihrest]

end Scanner

section Extent

theorem Structured.scan_tail {c : Char} {tail : List Char} (h : Structured (c :: tail)) (more : List Char) :
    scan .outside 0 (tail ++ more) = some more := by
  obtain ⟨hgrammar, c', tail', heq, hopening⟩ := h
  obtain ⟨rfl, rfl⟩ := List.cons.inj heq
  have hinner {inner : List Char} {closing : Char} (hclosing : isClosing closing = true)
      (hscan : ∀ (depth : ℕ) (more : List Char), scan .outside depth (inner ++ more) = scan .outside depth more) :
      scan .outside 0 (inner ++ [closing] ++ more) = some more := by
    rw [List.append_assoc, hscan]
    exact scan_last hclosing more
  cases hgrammar with
  | scalar _ hscalar =>
    have hplain := isPlain_of_isScalar (hscalar c List.mem_cons_self)
    unfold isPlain at hplain
    rw [hopening] at hplain
    simp at hplain
  | string _ => exact absurd hopening (by decide)
  | emptyObject hspace => exact hinner (by decide) (scan_spaces hspace)
  | object hmembers => exact hinner (by decide) (scan_grammar hmembers)
  | emptyArray hspace => exact hinner (by decide) (scan_spaces hspace)
  | array helements => exact hinner (by decide) (scan_grammar helements)

/-- What follows an object or an array does not change where it ends. -/
theorem Structured.eq_of_append_eq {text text' rest rest' : List Char} (h : Structured text)
    (h' : Structured text') (heq : text ++ rest = text' ++ rest') : text = text' ∧ rest = rest' := by
  have hrest : rest = rest' := by
    obtain ⟨_, c, tail, rfl, _⟩ := id h
    obtain ⟨_, c', tail', rfl, _⟩ := id h'
    rw [List.cons_append, List.cons_append] at heq
    have htail := (List.cons.inj heq).2
    have hscan := h.scan_tail rest
    rw [htail, h'.scan_tail rest'] at hscan
    exact (Option.some.inj hscan).symm
  subst hrest
  exact ⟨List.append_cancel_right heq, rfl⟩

theorem Structured.not_space {text : List Char} (h : Structured text) :
    ∃ c tail, text = c :: tail ∧ isOpening c = true ∧ isSpace c = false := by
  obtain ⟨_, c, tail, rfl, hopening⟩ := h
  refine ⟨c, tail, rfl, hopening, ?_⟩
  by_contra hspace
  have hplain := isPlain_of_isSpace (Bool.not_eq_false _ ▸ hspace)
  unfold isPlain at hplain
  rw [hopening] at hplain
  simp at hplain

/-- Space before two texts that do not start with space is the same in both. -/
theorem Spaces.eq_of_append_eq {space space' : List Char} (hspace : Spaces space) (hspace' : Spaces space')
    {c c' : Char} (hc : isSpace c = false) (hc' : isSpace c' = false) {rest rest' : List Char}
    (heq : space ++ c :: rest = space' ++ c' :: rest') : c :: rest = c' :: rest' := by
  have hdrop {space : List Char} (hspace : Spaces space) {c : Char} (hc : isSpace c = false) (rest : List Char) :
      (space ++ c :: rest).dropWhile isSpace = c :: rest := by
    rw [List.dropWhile_append_of_pos hspace, List.dropWhile_cons_of_neg (by simp [hc])]
  rw [← hdrop hspace hc rest, heq, hdrop hspace' hc' rest']

/-- A value after space is read back with what follows it. -/
theorem Structured.eq_of_spaces {space space' text text' rest rest' : List Char} (hspace : Spaces space)
    (hspace' : Spaces space') (h : Structured text) (h' : Structured text')
    (heq : space ++ (text ++ rest) = space' ++ (text' ++ rest')) : text = text' ∧ rest = rest' := by
  apply h.eq_of_append_eq h'
  obtain ⟨c, tail, rfl, -, hc⟩ := h.not_space
  obtain ⟨c', tail', rfl, -, hc'⟩ := h'.not_space
  exact hspace.eq_of_append_eq hspace' hc hc' heq

end Extent

end JsonText

end PriceOracle
