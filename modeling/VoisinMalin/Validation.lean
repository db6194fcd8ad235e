import VoisinMalin.Credentials

/-! What the two checks of TestValues accept. The three lookaheads of the password leave the text where
it is, so together with the counted repetition behind them they are a rule without an order. The
mail check is a search, and the range `.-_` in its first class leaves out the hyphen: it finds any
text with a mail address in it, and no address with a hyphen before the `@`. -/

namespace VoisinMalin

open Regex

namespace TestValues

/-- The rule that the comments of `isValidPassword` give. -/
structure PasswordRule (password : String) : Prop where
  length : 8 ≤ password.toList.length
  upper : ∃ c ∈ password.toList, upper c = true
  digit : ∃ c ∈ password.toList, digit c = true
  lower : ∃ c ∈ password.toList, lower c = true

/-- A password passes exactly when it keeps the rule and has no line terminator. -/
theorem isValidPassword_iff (password : String) : isValidPassword (some password) = true ↔
    PasswordRule password ∧ ∀ c ∈ password.toList, newlines c = false := by
  have hany : (∀ c ∈ password.toList, anyChar c = true) ↔
      ∀ c ∈ password.toList, newlines c = false := by
    simp only [anyChar, Bool.not_eq_true']
  rw [isValidPassword, wholly_iff, passwordRegEx, ← hany]
  simp only [leaves_cons, leaves_nil]
  constructor
  · rintro ⟨_, hupper, _, hdigit, _, hlower, mid, hmany, rfl⟩
    obtain rfl := hupper.1
    obtain rfl := hdigit.1
    obtain rfl := hlower.1
    obtain ⟨taken, htaken, hall, hleast⟩ := leaves_many.mp hmany
    rw [List.append_nil] at htaken
    rw [← htaken] at hall hleast
    exact ⟨⟨hleast, ((leaves_ahead hall).mp hupper).2, ((leaves_ahead hall).mp hdigit).2,
      ((leaves_ahead hall).mp hlower).2⟩, hall⟩
  · rintro ⟨hrule, hall⟩
    refine ⟨_, (leaves_ahead hall).mpr ⟨rfl, hrule.upper⟩, _,
      (leaves_ahead hall).mpr ⟨rfl, hrule.digit⟩, _,
      (leaves_ahead hall).mpr ⟨rfl, hrule.lower⟩, [], ?_, rfl⟩
    exact leaves_many.mpr ⟨password.toList, (List.append_nil _).symm, hall, hrule.length⟩

/-- A letter of a mail address. -/
def letter (c : Char) : Bool := upper c || lower c

def domainChar (c : Char) : Bool := letter c || digit c || c == '.' || c == '-'

def nameChar (c : Char) : Bool := domainChar c || c == '_'

/-- A whole mail address: a name, a domain and its ending. -/
def MailAddress (l : List Char) : Prop :=
  ∃ name domain ending, l = name ++ '@' :: (domain ++ '.' :: ending) ∧
    name ≠ [] ∧ (∀ c ∈ name, nameChar c = true) ∧
    domain ≠ [] ∧ (∀ c ∈ domain, domainChar c = true) ∧
    (ending.length = 2 ∨ ending.length = 3) ∧ ∀ c ∈ ending, letter c = true

/-- The first class of `emailRegEx`. -/
def localChar (c : Char) : Bool := upper c || digit c || lower c || range '.' '_' c

/-- Somewhere in the text stand a character of the first class, an `@`, characters of a domain, a dot
and two letters. -/
def HasMailPart (l : List Char) : Prop :=
  ∃ before c domain a b after, l = before ++ c :: '@' :: (domain ++ '.' :: a :: b :: after) ∧
    localChar c = true ∧ domain ≠ [] ∧ (∀ c ∈ domain, domainChar c = true) ∧
    letter a = true ∧ letter b = true

def HyphenBeforeAt (l : List Char) : Prop := ∃ before after, l = before ++ '-' :: '@' :: after

section Mail

variable {l : List Char} {c : Char}

/-- The mail check finds a mail part anywhere in the text. -/
theorem validEmailAdress_iff (s : String) :
    validEmailAdress (some s) = true ↔ HasMailPart s.toList := by
  rw [validEmailAdress, found_iff, emailRegEx]
  simp only [leaves_cons, leaves_nil]
  constructor
  · rintro ⟨before, mid, rest, hs, _, hfirst, _, hsecond, _, hthird, _, hfourth, _, hlast, rfl⟩
    obtain ⟨name, rfl, hname, hsome⟩ := leaves_many.mp hfirst
    obtain ⟨_, hat, rfl⟩ := leaves_one.mp hsecond
    obtain ⟨domain, rfl, hdomain, hdomain'⟩ := leaves_many.mp hthird
    obtain ⟨_, hdot, rfl⟩ := leaves_one.mp hfourth
    obtain ⟨ending, rfl, hending, hleast, -⟩ := hlast
    obtain rfl := beq_iff_eq.mp hat
    obtain rfl := beq_iff_eq.mp hdot
    -- One character before the `@` and two after the dot are enough.
    obtain ⟨first, c, rfl⟩ :=
      (List.eq_nil_or_concat' name).resolve_left (List.ne_nil_of_length_pos hsome)
    match ending, hleast, hending with
    | a :: b :: more, _, hending =>
      refine ⟨before ++ first, c, domain, a, b, more ++ rest, ?_, hname c (by simp),
        List.ne_nil_of_length_pos hdomain', hdomain, hending a (by simp), hending b (by simp)⟩
      rw [hs]
      simp
  · rintro ⟨before, c, domain, a, b, after, hs, hc, hdomain', hdomain, ha, hb⟩
    refine ⟨before, _, after, hs, _, leaves_many.mpr ⟨[c], rfl, ?_, le_refl 1⟩, _,
      leaves_one.mpr ⟨'@', rfl, rfl⟩, _,
      leaves_many.mpr ⟨domain, rfl, hdomain, List.length_pos_iff.mpr hdomain'⟩, _,
      leaves_one.mpr ⟨'.', rfl, rfl⟩, after, ⟨[a, b], rfl, ?_, by simp, by simp⟩, rfl⟩
    · exact List.forall_mem_singleton.mpr hc
    · exact List.forall_mem_cons.mpr ⟨ha, List.forall_mem_singleton.mpr hb⟩

theorem localChar_of_nameChar (h : nameChar c = true) (hc : c ≠ '-') : localChar c = true := by
  simp only [nameChar, domainChar, letter, localChar, range, Bool.or_eq_true, beq_iff_eq] at h ⊢
  rcases h with ((((h | h) | h) | h) | h) | h
  · simp [h]
  · simp [h]
  · simp [h]
  · subst h
    decide
  · contradiction
  · subst h
    decide

/-- The mail check finds a whole mail address unless it has a hyphen before the `@`. -/
theorem mailAddress_found (h : MailAddress l) : HasMailPart l ↔ ¬HyphenBeforeAt l := by
  obtain ⟨name, domain, ending, hl, hname', hname, hdomain', hdomain, hlength, hending⟩ := h
  have hat : '@' ∉ name := fun hat => absurd (hname '@' hat) (by decide)
  have hat' : '@' ∉ domain ++ '.' :: ending := by
    intro hat'
    simp only [List.mem_append, List.mem_cons] at hat'
    rcases hat' with hat' | hat' | hat'
    · exact absurd (hdomain '@' hat') (by decide)
    · exact absurd hat' (by decide)
    · exact absurd (hending '@' hat') (by decide)
  -- The text has one `@`, so what stands before it is the name.
  have hbefore : ∀ before c after, l = before ++ c :: '@' :: after → name = before ++ [c] := by
    intro before c after hsplit
    have heq : name ++ '@' :: (domain ++ '.' :: ending) = before ++ [c] ++ '@' :: after := by
      rw [← hl, hsplit, List.append_assoc, List.singleton_append]
    exact ((List.append_cons_inj_of_notMem hat hat').mp heq).1
  obtain ⟨first, c, rfl⟩ := (List.eq_nil_or_concat' name).resolve_left hname'
  constructor
  · rintro ⟨before, c, domain₂, a, b, after, hl₂, hc, -⟩ ⟨before₃, after₃, hl₃⟩
    have hsame := (hbefore before c _ hl₂).symm.trans (hbefore before₃ '-' _ hl₃)
    obtain rfl : c = '-' := by simpa using List.append_inj_right' hsame rfl
    exact absurd hc (by decide)
  · intro hhyphen
    have hc : c ≠ '-' := by
      rintro rfl
      exact hhyphen ⟨first, _, by rw [hl, List.append_assoc]; rfl⟩
    match ending, hlength, hending, hl with
    | a :: b :: after, _, hending, hl =>
      refine ⟨first, c, domain, a, b, after, ?_, localChar_of_nameChar (hname c (by simp)) hc,
        hdomain', hdomain, hending a (by simp), hending b (by simp)⟩
      rw [hl, List.append_assoc, List.singleton_append]

end Mail

/-- The mail check is right about a text exactly when it is a mail address without a hyphen before
the `@`, or it is none and has no mail part. -/
theorem validEmailAdress_right_iff (s : String) :
    (validEmailAdress (some s) = true ↔ MailAddress s.toList) ↔
      (MailAddress s.toList ∧ ¬HyphenBeforeAt s.toList) ∨
      (¬MailAddress s.toList ∧ ¬HasMailPart s.toList) := by
  rw [validEmailAdress_iff]
  by_cases h : MailAddress s.toList
  · rw [mailAddress_found h]
    tauto
  · tauto

/-- A text with a mail address in it passes. -/
theorem validEmailAdress_part :
    validEmailAdress (some "test@test.fr!") = true ∧ ¬MailAddress "test@test.fr!".toList := by
  refine ⟨by decide, ?_⟩
  rintro ⟨name, domain, ending, hl, -, hname, -, hdomain, -, hending⟩
  have hmem : '!' ∈ name ++ '@' :: (domain ++ '.' :: ending) := by
    rw [← hl]
    decide
  simp only [List.mem_append, List.mem_cons] at hmem
  rcases hmem with hmem | hmem | hmem | hmem | hmem
  · exact absurd (hname '!' hmem) (by decide)
  · exact absurd hmem (by decide)
  · exact absurd (hdomain '!' hmem) (by decide)
  · exact absurd hmem (by decide)
  · exact absurd (hending '!' hmem) (by decide)

end TestValues

end VoisinMalin
