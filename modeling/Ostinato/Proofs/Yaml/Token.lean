import Ostinato.Proofs.Yaml.Ending
import Ostinato.Yaml.Token.Block
import Ostinato.Yaml.Token.Quoted

/-!
# Tokens that are no value

Of all that can be wrong with a token, two things are found only when it is turned into a value: an
escape in quotes for a number beyond the last code point, and a version with more digits than are
read. Everything else that is wrong refuses the document.
-/

namespace Ostinato.Yaml

variable {bad : Prop}

/-! ## What is no value -/

/-- An escape, with the digits that its letter asks for, for a number beyond the last code point. -/
def HasFarEscape (cs : List Char) : Prop :=
  ∃ letter width digits, escapeWidth? letter = some width ∧ digits.length = width ∧
    digits.all isHexDigit = true ∧ 0x10ffff < Text.ofDigits 16 (digits.filterMap hexDigit?) ∧
    '\\' :: letter :: digits <:+: cs

/-- A character that may stand in front of a number of a version. -/
def isVersionGap (c : Char) : Bool := c = ' ' || c = '.' || c.isDigit

/-- A version, whole or after its point, with more digits than are read. -/
def HasLongVersion (cs : List Char) : Prop :=
  ∃ gap digits, gap.all isVersionGap = true ∧ digits.all Char.isDigit = true ∧
    Text.maxDigits < digits.length ∧ '%' :: "YAML".toList ++ (gap ++ digits) <:+: cs

/-- A far escape in a part of a text is one of the text. -/
theorem HasFarEscape.mono {cs cs' : List Char} (h : HasFarEscape cs) (hpart : cs <:+: cs') :
    HasFarEscape cs' := by
  obtain ⟨letter, width, digits, hletter, hlength, hdigits, hfar, hescape⟩ := h
  exact ⟨letter, width, digits, hletter, hlength, hdigits, hfar, hescape.trans hpart⟩

/-- A long version in a part of a text is one of the text. -/
theorem HasLongVersion.mono {cs cs' : List Char} (h : HasLongVersion cs) (hpart : cs <:+: cs') :
    HasLongVersion cs' := by
  obtain ⟨gap, digits, hgap, hdigits, hlong, hversion⟩ := h
  exact ⟨gap, digits, hgap, hdigits, hlong, hversion.trans hpart⟩

/-! ## Scalars in quotes -/

/-- The line breaks in a quoted scalar end well. -/
theorem ends_lexQuotedBreaks (lineStart : Bool) (cs : List Char) :
    Ends (fun _ => True) bad (lexQuotedBreaks lineStart cs) := by
  induction cs generalizing lineStart with
  | nil => exact trivial
  | cons c cs ih =>
    unfold lexQuotedBreaks
    split
    · exact trivial
    split
    · exact (ih _).andThen fun _ => trivial
    split
    · exact (ih _).andThen fun _ => trivial
    · exact trivial

/-- The blanks in a quoted scalar end well. -/
theorem ends_lexQuotedSpaces (cs : List Char) :
    Ends (fun _ => True) bad (lexQuotedSpaces cs) := by
  unfold lexQuotedSpaces
  split
  · exact trivial
  · dsimp only
    split
    · exact (ends_lexQuotedBreaks _ _).andThen fun _ => trivial
    · exact trivial

/-- A number fails as a code point only if it is too large. -/
theorem ends_codePoint (n : Nat) : Ends (fun _ => True) (0x10ffff < n) (codePoint n) := by
  unfold codePoint
  split
  next hlarge =>
    -- too large to be looked at, and so beyond the last code point too
    rw [ends_scalar]
    omega
  split
  next hfar => exact hfar
  split
  · exact trivial
  · exact trivial

/-- What has a hexadecimal value is a hexadecimal digit. -/
theorem isHexDigit_of_hexDigit? {c : Char} (h : (hexDigit? c).isSome = true) :
    isHexDigit c = true := by
  unfold hexDigit? at h
  split at h
  next hc => exact hc
  next => cases h

/-- An escape fails as a scalar only if it is a far one. -/
theorem ends_lexEscape (cs : List Char) :
    Ends (fun _ => True) (HasFarEscape ('\\' :: cs)) (lexEscape cs) := by
  unfold lexEscape
  split
  · exact trivial
  next c rest =>
    split
    · exact trivial
    next width _ hwidth =>
      dsimp only
      split
      next hlength =>
        refine ((ends_codePoint _).because fun hfar => ?_).andThen fun _ => trivial
        -- as many digits as places, so the places are there and each of them is a digit
        have htake : (rest.take width).length = width :=
          Nat.le_antisymm (List.length_take_le _ _)
            (Nat.le_trans (Nat.le_of_eq hlength.symm) (List.length_filterMap_le _ _))
        refine ⟨c, width, rest.take width, hwidth, htake, List.all_eq_true.mpr fun d hd => ?_, hfar,
          List.IsPrefix.isInfix ?_⟩
        · have hall := List.filterMap_length_eq_length.mp (hlength.trans htake.symm)
          exact isHexDigit_of_hexDigit? (hall d hd)
        · exact List.cons_prefix_cons.mpr ⟨rfl, List.cons_prefix_cons.mpr ⟨rfl, rest.take_prefix _⟩⟩
      split
      · exact trivial
      · exact trivial
    · split
      · exact (ends_lexQuotedBreaks _ _).andThen fun _ => trivial
      · exact trivial

/-- The text of a quoted scalar fails as a scalar only for a far escape. -/
theorem ends_lexQuotedText (double : Bool) (fuel : Nat) (cs : List Char) :
    Ends (fun _ => True) (HasFarEscape cs) (lexQuotedText double fuel cs) := by
  induction fuel generalizing cs with
  | zero => cases cs <;> exact trivial
  | succ fuel ih =>
    -- an escape in a part of the text is one in the text
    have hpart : ∀ part, part <:+ cs →
        Ends (fun _ => True) (HasFarEscape cs) (lexQuotedText double fuel part) :=
      fun part hpart => (ih part).because fun h => h.mono hpart.isInfix
    cases cs with
    | nil => exact trivial
    | cons c rest =>
      unfold lexQuotedText
      split
      · split
        next rest' =>
          refine (hpart rest' ?_).andThen fun _ => trivial
          exact (List.suffix_cons _ _).trans (List.suffix_cons _ _)
        · exact trivial
      split
      · exact trivial
      split
      next hc =>
        have hbackslash : c = '\\' := by simp_all
        subst hbackslash
        refine (ends_lexEscape rest).andThen fun r => ?_
        exact (hpart _ ((rest.drop_suffix _).trans (List.suffix_cons _ _))).andThen fun _ => trivial
      split
      · refine (ends_lexQuotedSpaces _).andThen fun r => ?_
        exact (hpart _ (List.drop_suffix _ _)).andThen fun _ => trivial
      · exact (hpart rest (List.suffix_cons _ _)).andThen fun _ => trivial

/-- A quoted scalar fails as a scalar only for a far escape. -/
theorem ends_lexQuoted (double : Bool) (size : Nat) (cs : List Char) :
    Ends (fun _ => True) (HasFarEscape cs) (lexQuoted double size cs) :=
  (ends_lexQuotedText _ _ _).andThen fun _ => trivial

/-! ## Names and tags -/

/-- A name ends well. -/
theorem ends_lexName (cs : List Char) : Ends (fun _ => True) bad (lexName cs) := by
  unfold lexName
  dsimp only
  split
  · exact ends_refuseAt
  split
  · exact trivial
  · exact trivial

/-- The escapes of an address end well. -/
theorem ends_lexEscapes (cs : List Char) : Ends (fun _ => True) bad (lexEscapes cs) := by
  fun_induction lexEscapes cs with
  | case1 a b rest x y hx hy ih => exact Ends.map ih
  | _ => exact trivial

/-- The characters of an address end well. -/
theorem ends_lexUriChars (fuel : Nat) (cs : List Char) :
    Ends (fun _ => True) bad (lexUriChars fuel cs) := by
  induction fuel generalizing cs with
  | zero => exact trivial
  | succ fuel ih =>
    unfold lexUriChars
    split
    · exact trivial
    split
    · refine (ends_lexEscapes _).andThen fun bytes => ?_
      split
      · exact trivial
      · exact (ih _).andThen fun _ => trivial
    split
    · exact (ih _).andThen fun _ => trivial
    · exact trivial

/-- An address ends well. -/
theorem ends_lexUri (cs : List Char) : Ends (fun _ => True) bad (lexUri cs) := by
  unfold lexUri
  dsimp only
  split
  · exact ends_refuseAt
  · exact (ends_lexUriChars _ _).andThen fun _ => trivial

/-- The handle of a tag ends well. -/
theorem ends_lexHandle (cs : List Char) : Ends (fun _ => True) bad (lexHandle cs) := by
  unfold lexHandle
  split
  · split
    · exact trivial
    dsimp only
    split
    · exact trivial
    · exact ends_refuseAt
  · exact trivial

/-- A tag ends well. -/
theorem ends_lexTag (cs : List Char) : Ends (fun _ => True) bad (lexTag cs) := by
  -- in each case what is left is to look behind the tag
  have hbehind : ∀ r : Token × Nat, Ends (fun _ => True) bad
      (if atSpaceOrBreak (cs.drop r.2) then (pure (r.1, r.2) : Except Fault (Token × Nat))
        else refuse "a tag is not followed by a space") := by
    intro r
    split <;> exact trivial
  unfold lexTag
  dsimp only
  split
  · refine (ends_lexUri _).andThen fun r => ?_
    split
    · exact hbehind _
    · exact ends_refuseAt.andThen fun r => hbehind r
  split
  · exact hbehind _
  split
  · exact (ends_lexHandle _).andThen fun _ => (ends_lexUri _).andThen fun _ => hbehind _
  · exact (ends_lexUri _).andThen fun _ => hbehind _

/-! ## Directives -/

/-- The end of a line ends well. -/
theorem ends_lexLineEnd (cs : List Char) : Ends (fun _ => True) bad (lexLineEnd cs) := by
  unfold lexLineEnd
  dsimp only
  split <;> split <;> exact trivial

/-- A directive for tags ends well. -/
theorem ends_lexTagDirective (cs : List Char) :
    Ends (fun _ => True) bad (lexTagDirective cs) := by
  unfold lexTagDirective
  refine (ends_lexHandle _).andThen fun r => ?_
  dsimp only
  split
  · exact ends_refuseAt
  · refine (ends_lexUri _).andThen fun _ => ?_
    split <;> exact trivial

/-- A number is read with all its digits, and fails as a scalar only if they are too many. -/
theorem ends_lexNumber (cs : List Char) :
    Ends (fun r => r.2 = (cs.takeWhile Char.isDigit).length)
      (Text.maxDigits < (cs.takeWhile Char.isDigit).length) (lexNumber cs) := by
  unfold lexNumber
  dsimp only
  split
  · exact ends_refuseAt
  split
  next hlong => exact hlong
  · exact rfl

/-- As many characters as are taken while some hold are those characters. -/
theorem take_length_takeWhile (p : Char → Bool) (cs : List Char) :
    cs.take (cs.takeWhile p).length = cs.takeWhile p :=
  (List.prefix_iff_eq_take.mp (List.takeWhile_prefix p)).symm

/-- Characters that are taken as part of a gap make one. -/
theorem all_isVersionGap_takeWhile {p : Char → Bool} (hp : ∀ c, p c = true → isVersionGap c = true)
    (cs : List Char) : (cs.takeWhile p).all isVersionGap = true :=
  List.all_eq_true.mpr fun c hc => hp c (List.all_eq_true.mp List.all_takeWhile c hc)

/-- Behind a gap, a number with too many digits makes a long version. -/
theorem hasLongVersion_of_drop {cs : List Char} {n : Nat}
    (hgap : (cs.take n).all isVersionGap = true)
    (hlong : Text.maxDigits < ((cs.drop n).takeWhile Char.isDigit).length) :
    HasLongVersion ('%' :: "YAML".toList ++ cs) := by
  refine ⟨cs.take n, (cs.drop n).takeWhile Char.isDigit, hgap, List.all_takeWhile, hlong, ?_⟩
  have hdigits : cs.take n ++ (cs.drop n).takeWhile Char.isDigit <+: cs := by
    have hprefix : (cs.drop n).takeWhile Char.isDigit <+: cs.drop n := List.takeWhile_prefix _
    have h := (List.prefix_append_right_inj (cs.take n)).mpr hprefix
    rwa [List.take_append_drop] at h
  exact ((List.prefix_append_right_inj _).mpr hdigits).isInfix

/-- A version fails as a scalar only if it is a long one. -/
theorem ends_lexVersion (cs : List Char) :
    Ends (fun _ => True) (HasLongVersion ('%' :: "YAML".toList ++ cs)) (lexVersion cs) := by
  have hspaces : (cs.take (countSpaces cs)).all isVersionGap = true := by
    rw [countSpaces, take_length_takeWhile]
    exact all_isVersionGap_takeWhile (fun c hc => by simp_all [isVersionGap]) cs
  unfold lexVersion
  dsimp only
  refine ((ends_lexNumber _).because (hasLongVersion_of_drop hspaces)).bind fun r hr => ?_
  obtain ⟨major, m⟩ := r
  have hm : m = ((cs.drop (countSpaces cs)).takeWhile Char.isDigit).length := hr
  dsimp only
  split
  next rest hrest =>
    -- the spaces, the first number and the point
    have hpoint : (cs.take (countSpaces cs + m + 1)).all isVersionGap = true := by
      have hnumber : ((cs.drop (countSpaces cs)).take m).all isVersionGap = true := by
        rw [hm, take_length_takeWhile]
        exact all_isVersionGap_takeWhile (fun c hc => by simp_all [isVersionGap]) _
      rw [List.take_add, List.take_add, hrest, List.all_append, List.all_append, hspaces, hnumber]
      rfl
    have hdrop : rest = cs.drop (countSpaces cs + m + 1) := by
      rw [← List.drop_drop, hrest]
      rfl
    refine ((ends_lexNumber _).mono (fun _ _ => trivial) fun hlong => ?_).andThen fun _ => ?_
    · exact hasLongVersion_of_drop hpoint (hdrop ▸ hlong)
    · split <;> exact trivial
  · exact ends_refuseAt

/-- A directive fails as a scalar only for a long version. -/
theorem ends_lexDirective (cs : List Char) :
    Ends (fun _ => True) (HasLongVersion ('%' :: cs)) (lexDirective cs) := by
  unfold lexDirective
  dsimp only
  split
  · exact ends_refuseAt
  split
  · exact trivial
  split
  next hname =>
    -- the name is what stands in front of the version
    have hcs : '%' :: "YAML".toList ++ cs.dropWhile isWordChar = '%' :: cs := by
      rw [← hname, List.cons_append, List.takeWhile_append_dropWhile]
    rw [← hcs]
    exact (ends_lexVersion _).andThen fun _ => (ends_lexLineEnd _).andThen fun _ => trivial
  split
  · exact (ends_lexTagDirective _).andThen fun _ => (ends_lexLineEnd _).andThen fun _ => trivial
  · exact (ends_lexLineEnd _).andThen fun _ => trivial

/-! ## Block scalars -/

/-- The indentation of a block scalar ends well. -/
theorem ends_blockIndent (c : Char) : Ends (fun _ => True) bad (blockIndent c) := by
  unfold blockIndent
  split <;> exact trivial

/-- The indicators of a block scalar end well. -/
theorem ends_lexIndicators (cs : List Char) : Ends (fun _ => True) bad (lexIndicators cs) := by
  unfold lexIndicators
  split
  · exact trivial
  split
  · split
    · exact Ends.map (ends_blockIndent _)
    · exact trivial
  · split
    · split
      · exact Ends.map (ends_blockIndent _)
      · exact Ends.map (ends_blockIndent _)
    · exact trivial

/-- A block scalar ends well. -/
theorem ends_lexBlock (folded : Bool) (outer : Int) (size : Nat) (cs : List Char) :
    Ends (fun _ => True) bad (lexBlock folded outer size cs) := by
  have hheader : Ends (fun _ => True) bad (lexBlockHeader cs) := by
    unfold lexBlockHeader
    refine (ends_lexIndicators cs).andThen fun _ => ?_
    dsimp only
    split
    · exact (ends_lexLineEnd _).andThen fun _ => trivial
    · exact trivial
  exact hheader.andThen fun _ => trivial

end Ostinato.Yaml
