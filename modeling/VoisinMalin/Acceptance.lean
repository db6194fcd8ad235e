import VoisinMalin.AdForm

/-! What the checks of `publishButton` let through. `isNumeric` trims letters from both ends, so it is
true of texts that are letters throughout, and a text of other signs passes without a digit. -/

namespace VoisinMalin

variable {Double : Type}

/-- `CharacterSet.decimalDigits`. Among the ASCII characters it has the digits alone. -/
structure Digits where
  contains : Char → Bool
  ascii : ∀ c, c.val < 0x80 → contains c = c.isDigit

def HasDigit (digits : Digits) (s : String) : Prop := ∃ c ∈ s.toList, digits.contains c = true

/-- The texts of a form that may be published: none is blank, and the two numbers have a digit. -/
structure Filled (digits : Digits) (form : Form) : Prop where
  title : ∃ c ∈ form.title.toList, whitespaces c = false
  description : ∃ c ∈ form.description.toList, whitespaces c = false
  price : HasDigit digits form.price
  phone : HasDigit digits form.phone

/-- The press on the form is stopped: one of the four texts has nothing but blanks, or one of the two
numbers nothing but letters. -/
inductive Stopped (letters : Letters) (form : Form) : Prop
  | blank (text : String) (mem : text ∈ [form.title, form.description, form.price, form.phone])
      (blanks : ∀ c ∈ text.toList, whitespaces c = true)
  | lettered (text : String) (mem : text ∈ [form.price, form.phone])
      (all : ∀ c ∈ text.toList, letters.contains c = true)

/-- The checks let a press through unless it is stopped. -/
theorem verified_iff (sv : FormServices Double) (form : Form) :
    form.verified sv = true ↔ ¬Stopped sv.letters form := by
  have hverified : form.verified sv = true ↔
      (∀ text ∈ [form.title, form.description, form.price, form.phone], isBlank text = false) ∧
      ∀ text ∈ [form.price, form.phone], isNumeric sv.letters text = false := by
    simp [Form.verified, and_assoc]
  rw [hverified]
  constructor
  · rintro ⟨hblank, hnumeric⟩ hstopped
    cases hstopped with
    | blank text mem blanks => exact absurd (isBlank_iff.mpr blanks) (by simp [hblank text mem])
    | lettered text mem all => exact absurd (isNumeric_iff.mpr all) (by simp [hnumeric text mem])
  · intro hstopped
    constructor
    · intro text mem
      rw [← Bool.not_eq_true, isBlank_iff]
      exact fun blanks => hstopped (.blank text mem blanks)
    · intro text mem
      rw [← Bool.not_eq_true, isNumeric_iff]
      exact fun all => hstopped (.lettered text mem all)

/-- A form that the checks let through has no blank text. -/
theorem verified_notBlank {sv : FormServices Double} {form : Form}
    (h : form.verified sv = true) {text : String}
    (hmem : text ∈ [form.title, form.description, form.price, form.phone]) :
    ∃ c ∈ text.toList, whitespaces c = false := by
  rw [verified_iff] at h
  by_contra hblank
  simp only [not_exists, not_and, Bool.not_eq_false] at hblank
  exact h (.blank text hmem hblank)

/-- What the checks let through is filled exactly when both numbers have a digit or the press is
stopped; and `isNumeric` finds the texts without a digit exactly where these are letters. -/
theorem accepted_filled_iff (sv : FormServices Double) (digits : Digits) (form : Form) :
    ((form.verified sv = true → Filled digits form) ↔
      Stopped sv.letters form ∨ (HasDigit digits form.price ∧ HasDigit digits form.phone)) ∧
    ∀ s, (¬HasDigit digits s → isNumeric sv.letters s = true) ↔
      HasDigit digits s ∨ ∀ c ∈ s.toList, sv.letters.contains c = true := by
  constructor
  · constructor
    · intro hfilled
      by_cases hstopped : Stopped sv.letters form
      · exact Or.inl hstopped
      · have hform := hfilled ((verified_iff sv form).mpr hstopped)
        exact Or.inr ⟨hform.price, hform.phone⟩
    · rintro (hstopped | ⟨hprice, hphone⟩) hverified
      · exact absurd hstopped ((verified_iff sv form).mp hverified)
      · exact ⟨verified_notBlank hverified (by simp), verified_notBlank hverified (by simp),
          hprice, hphone⟩
  · intro s
    rw [isNumeric_iff, or_iff_not_imp_left]

/-- A form with a sign as its price and one as its phone. -/
def signsForm : Form :=
  { Form.loaded 0 with title := "Velo", description := "Bon etat", price := "?", phone := "+" }

/-- It passes, and neither sign is a digit. -/
theorem signsForm_accepted : signsForm.verified plainServices = true ∧
    ∀ digits : Digits, ¬HasDigit digits signsForm.price ∧
      isNumeric plainServices.letters signsForm.price = false ∧ ¬Filled digits signsForm := by
  refine ⟨by decide, fun digits => ?_⟩
  have hprice : ¬HasDigit digits signsForm.price := by
    rintro ⟨c, hc, hdigit⟩
    obtain rfl := List.mem_singleton.mp (show c ∈ ['?'] from hc)
    rw [digits.ascii '?' (by decide)] at hdigit
    contradiction
  exact ⟨hprice, by decide, fun h => hprice h.price⟩

end VoisinMalin
