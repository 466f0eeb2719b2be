import Blockwork.Markup.Yaml.Print
import Blockwork.Proofs.Text.ByteOrder
import Blockwork.Proofs.Yaml.Literal
import Blockwork.Proofs.Yaml.Plain
import Blockwork.Proofs.Yaml.Quoted

/-!
# Texts in their styles

What the choice of a style says about a text, how a text begins on the page, and how long a short
key is there. Only one thing keeps a text from being read back: a literal block that begins with a
break or with a tab loses its beginning (`losesStart`).
-/

namespace Blockwork.Yaml

/-- The beginning of the text does not survive in a literal block. -/
def losesStart (s : String) : Bool :=
  styleOf s = .literal && s.toList.head?.any fun x => isBreak x || x == '\t'

/-- A token can begin here: neither a gap nor a comment nor a byte order mark does. -/
def Starts (cs : List Char) : Prop :=
  ∀ x, cs.head? = some x → isGap x = false ∧ x ≠ '#' ∧ x ≠ '\ufeff'

theorem starts_nil : Starts [] := nofun

theorem starts_cons {x : Char} (hgap : isGap x = false) (hhash : x ≠ '#') (hmark : x ≠ '\ufeff')
    (r : List Char) : Starts (x :: r) := fun _ hy => Option.some.inj hy ▸ ⟨hgap, hhash, hmark⟩

theorem Starts.begun {cs : List Char} (h : Starts cs) : Begun cs := fun x hx => (h x hx).1

/-! ### What a style says -/

section

variable {s : String}

theorem not_hidden {cs : List Char} (h : hasHidden cs = false) {x : Char} (hx : x ∈ cs)
    (htab : x ≠ '\t') : isShown x = true := by
  have hshown : (x != '\t' && !isShown x) = false :=
    List.any_eq_false.1 h x hx |> Bool.eq_false_iff.2
  simpa [htab] using hshown

theorem plain_of_style (h : styleOf s = .plain) :
    Plain s.toList ∧ kindOf true s = .text ∧ s.toList ≠ [] := by
  obtain ⟨hstands, hplain⟩ : standsForText s = true ∧ fitsPlain s.toList = true := by
    unfold styleOf at h
    grind
  refine ⟨plain_of_fitsPlain hplain, ?_, fun hnil => ?_⟩
  · unfold standsForText at hstands
    simp only [Bool.and_eq_true, decide_eq_true_eq] at hstands
    exact hstands.1.1
  · obtain rfl : s = "" := String.toList_inj.1 hnil
    exact absurd hstands (by decide)

theorem single_of_style (h : styleOf s = .single) : SingleQuoted s.toList := by
  obtain ⟨hfeed, hsingle⟩ : s.toList.contains '\n' = false ∧ fitsSingle s.toList = true := by
    unfold styleOf at h
    grind
  obtain ⟨⟨⟨hbreak, hspace⟩, htab⟩, hhidden⟩ : ((hasBreakSpace s.toList = false ∧
      hasSpaceBreak s.toList = false) ∧ s.toList.contains '\t' = false) ∧
      hasHidden s.toList = false := by
    unfold fitsSingle at hsingle
    simpa only [Bool.not_eq_true', Bool.or_eq_false_iff] using hsingle
  refine ⟨fun x hx => ?_, hspace, hbreak⟩
  have hne : x ≠ '\t' := by
    rintro rfl
    simp [hx] at htab
  refine ⟨hne, ?_, not_hidden hhidden hx hne⟩
  rintro rfl
  simp [hx] at hfeed

theorem literal_of_style (h : styleOf s = .literal) :
    '\n' ∈ s.toList ∧ s.toList ≠ [] ∧ ∀ x ∈ s.toList, x = '\t' ∨ isShown x = true := by
  obtain ⟨hfeed, hblock⟩ : s.toList.contains '\n' = true ∧ fitsBlock s.toList = true := by
    unfold styleOf at h
    grind
  obtain ⟨⟨⟨hne, -⟩, -⟩, hhidden⟩ : ((s.toList.isEmpty = false ∧
      (s.toList.getLast? == some ' ') = false) ∧ hasSpaceBreak s.toList = false) ∧
      hasHidden s.toList = false := by
    unfold fitsBlock at hblock
    simpa only [Bool.not_eq_true', Bool.or_eq_false_iff] using hblock
  refine ⟨by simpa using hfeed, by simpa using hne, fun x hx => ?_⟩
  by_cases htab : x = '\t'
  · exact .inl htab
  · exact .inr (not_hidden hhidden hx htab)

theorem kept_of_literal (h : styleOf s = .literal) :
    ∀ x ∈ s.toList, isBreak x = true → isKept x = true := by
  intro x hx hbreak
  refine isKept_of_isShown hbreak (((literal_of_style h).2.2 x hx).resolve_left ?_)
  rintro rfl
  exact absurd hbreak (by decide)

theorem head_of_literal (h : styleOf s = .literal) (hstart : losesStart s = false) :
    ∀ x, s.toList.head? = some x → isBreak x = false ∧ x ≠ '\t' := by
  intro x hx
  unfold losesStart at hstart
  simpa [h, hx] using hstart

end

/-! ### How a text begins on the page -/

/-- **A text begins with a character that starts a token**, whatever its style is. -/
theorem exists_writeText (indent : Nat) (s : String) :
    ∃ x r, writeText indent s = x :: r ∧ ∀ r', Starts (x :: r') := by
  unfold writeText
  dsimp only
  split
  · rename_i hstyle
    obtain ⟨hplain, -, hne⟩ := plain_of_style hstyle
    obtain ⟨x, cs, hcs⟩ := List.exists_cons_of_ne_nil hne
    rw [hcs] at hplain ⊢
    -- a plain text begins with a character that is shown and marks nothing
    refine ⟨x, cs, rfl, starts_cons (isGap_eq_false_iff.2 ⟨?_, ?_⟩) ?_ ?_⟩
    · rintro rfl
      exact hplain.head_ne rfl
    · exact ⟨(hplain.shown x List.mem_cons_self).1, (hplain.shown x List.mem_cons_self).2.2⟩
    · rintro rfl
      exact absurd hplain.not_indicator.1 (by decide)
    · rintro rfl
      exact absurd (hplain.shown _ List.mem_cons_self).2.1 (by decide)
  · exact ⟨'\'', _, rfl, starts_cons (by decide) (by decide) (by decide)⟩
  · exact ⟨'"', _, rfl, starts_cons (by decide) (by decide) (by decide)⟩
  · exact ⟨'|', _, rfl, starts_cons (by decide) (by decide) (by decide)⟩

/-! ### Texts on one line -/

section

variable {s : String} (hline : isMultiline s.toList = false)

include hline

theorem not_literal_of_line : styleOf s ≠ .literal := by
  intro h
  have hfeed := List.any_eq_false.1 hline '\n' (literal_of_style h).1
  exact hfeed (by decide)

omit hline in
theorem isWordChar_double (x : Char) : isWordChar false x = true ∨ x = ' ' := by
  by_cases hx : x = ' '
  · exact .inr hx
  · exact .inl (by simp [isWordChar, hx])

/-- A text on one line that is not plain stands between two quotes. -/
theorem writeText_quoted (h : styleOf s ≠ .plain) (indent : Nat) :
    ∃ single, styleOf s = (if single then .single else .double) ∧
      writeText indent s
        = quoteMark single :: (s.toList.flatMap (quotedChar single) ++ [quoteMark single]) ∧
      ∀ x ∈ s.toList, isWordChar single x = true ∨ x = ' ' := by
  have hunbroken : ∀ x ∈ s.toList, isBreak x = false := fun x hx =>
    Bool.eq_false_iff.2 (List.any_eq_false.1 hline x hx)
  unfold writeText
  dsimp only
  split
  · rename_i hplain
    exact absurd hplain h
  · rename_i hsingle
    -- on one line single quotes write every character by itself
    have hbody := singleBody_line indent hunbroken []
    rw [List.append_nil, singleBody, List.append_nil] at hbody
    refine ⟨true, hsingle, ?_, ?_⟩
    · rw [writeSingle, hbody]
      rfl
    · have hquoted := single_of_style hsingle
      rw [← List.append_nil s.toList] at hquoted
      exact hquoted.words hunbroken
  · rename_i hdouble
    exact ⟨false, hdouble, rfl, fun x _ => isWordChar_double x⟩
  · rename_i hliteral
    exact absurd hliteral (not_literal_of_line hline)

end

/-! ### How long a key is -/

theorem length_escapeChar_le (x : Char) :
    (escapeChar x).length ≤ 4 * (Text.encodeChar x).length := by
  unfold escapeChar Text.encodeChar
  dsimp only
  split
  · split_ifs <;> simp
  · split
    case h_16 =>
      split_ifs <;> simp [length_upperHex] <;> omega
    all_goals split_ifs <;> simp

theorem length_encodeChar_pos (x : Char) : 0 < (Text.encodeChar x).length := by
  rw [Text.length_encodeChar]
  exact Char.utf8Size_pos x

theorem length_le_encode (cs : List Char) : cs.length ≤ (cs.flatMap Text.encodeChar).length := by
  induction cs with
  | nil => exact Nat.le_refl 0
  | cons x cs ih =>
    have hx := length_encodeChar_pos x
    rw [List.flatMap_cons, List.length_append, List.length_cons]
    omega

theorem length_quotedChar_le (single : Bool) (x : Char) :
    (quotedChar single x).length ≤ 4 * (Text.encodeChar x).length := by
  cases single with
  | true =>
    have hsize := length_encodeChar_pos x
    unfold quotedChar
    simp only [if_true]
    split
    · simp only [List.length_cons, List.length_nil]
      omega
    · simp only [List.length_cons, List.length_nil]
      omega
  | false => exact length_escapeChar_le x

theorem length_flatMap_quotedChar_le (single : Bool) (cs : List Char) :
    (cs.flatMap (quotedChar single)).length ≤ 4 * (cs.flatMap Text.encodeChar).length := by
  induction cs with
  | nil => exact Nat.le_refl 0
  | cons x cs ih =>
    have hx := length_quotedChar_le single x
    rw [List.flatMap_cons, List.flatMap_cons, List.length_append, List.length_append]
    omega

/-- **A short key is in time for its colon.** -/
theorem length_writeText_le {s : String} (h : isShortKey s = true) (indent : Nat) :
    (writeText indent s).length ≤ 1024 := by
  obtain ⟨hline, hshort⟩ : isMultiline s.toList = false ∧ (Text.encode s).length ≤ 128 := by
    unfold isShortKey at h
    rw [Text.length_encode]
    simpa using h
  by_cases hstyle : styleOf s = .plain
  · have hwritten : writeText indent s = s.toList := by rw [writeText, hstyle]
    rw [hwritten]
    exact Nat.le_trans (length_le_encode s.toList) (Nat.le_trans hshort (by decide))
  · obtain ⟨single, -, hwritten, -⟩ := writeText_quoted hline hstyle indent
    have hquoted := length_flatMap_quotedChar_le single s.toList
    have hbytes : (s.toList.flatMap Text.encodeChar).length ≤ 128 := hshort
    rw [hwritten, List.length_cons, List.length_append, List.length_singleton]
    omega

end Blockwork.Yaml
