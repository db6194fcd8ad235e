import VoisinMalin.Model
import Mathlib.Data.List.Basic

/-! Field paths of the Firestore SDK: the dot-separated texts that `updateData` and `whereField` take,
and the canonical texts that go over the wire, in which a segment that is no identifier stands in
backticks. A canonical text is read back as its path unless a segment is empty or has a null
character, and then it is refused. A mark is written under its key as it is but removed and queried
under the path that the key spells. -/

namespace VoisinMalin

abbrev FieldPath := List String

namespace FieldPath

def null : Char := '\x00'
def backtick : Char := '\x60'
def backslash : Char := '\x5c'

def identifierStart (c : Char) : Bool :=
  c == '_' || ('a' ≤ c && c ≤ 'z') || ('A' ≤ c && c ≤ 'Z')

def IsValidIdentifier : List Char → Bool
  | [] => false
  | first :: rest =>
    identifierStart first && rest.all fun c => identifierStart c || ('0' ≤ c && c ≤ '9')

/-- The replacements of `StrReplaceAll` in a segment. -/
def replaced (c : Char) : List Char :=
  if c = backslash then [backslash, backslash]
  else if c = backtick then [backslash, backtick]
  else [c]

def escaped_segment (segment : String) : List Char :=
  let escaped := segment.toList.flatMap replaced
  if IsValidIdentifier escaped then escaped else backtick :: escaped ++ [backtick]

/-- `StrJoin` of the escaped segments. -/
def joined : FieldPath → List Char
  | [] => []
  | [segment] => escaped_segment segment
  | segment :: segments => escaped_segment segment ++ '.' :: joined segments

def CanonicalString (path : FieldPath) : String := String.ofList (joined path)

def emptySegment (path : String) : String :=
  "Invalid field path (" ++ path ++
    "). Paths must not be empty, begin with '.', end with '.', or contain '..'"

def finish_segment (path : String) (segment : List Char) (segments : FieldPath) :
    Except String FieldPath :=
  if segment = [] then .error (emptySegment path)
  else .ok (segments ++ [String.ofList segment])

/-- What follows the loop of `FromServerFormat`. -/
def finish (path : String) (inside_backticks : Bool) (segment : List Char) (segments : FieldPath) :
    Except String FieldPath :=
  match finish_segment path segment segments with
  | .error e => .error e
  | .ok segments =>
    if inside_backticks then .error ("Unterminated ` in path " ++ path) else .ok segments

def FromServerFormat.loop (path : String) :
    List Char → Bool → List Char → FieldPath → Except String FieldPath
  | [], inside_backticks, segment, segments => finish path inside_backticks segment segments
  | c :: rest, inside_backticks, segment, segments =>
    -- The first null character ends the path.
    if c = null then finish path inside_backticks segment segments
    else if c = '.' then
      if inside_backticks then loop path rest inside_backticks (segment ++ [c]) segments
      else
        match finish_segment path segment segments with
        | .error e => .error e
        | .ok segments => loop path rest inside_backticks [] segments
    else if c = backtick then loop path rest (!inside_backticks) segment segments
    else if c = backslash then
      match rest with
      | [] => .error ("Trailing escape characters not allowed in " ++ path)
      | d :: rest => loop path rest inside_backticks (segment ++ [d]) segments
    else loop path rest inside_backticks (segment ++ [c]) segments

def FromServerFormat (path : String) : Except String FieldPath :=
  FromServerFormat.loop path path.toList false [] []

def reserved : List Char := ['~', '*', '/', '[', ']']

/-- `StrSplit` at the dots. -/
def split : List Char → List Char → List (List Char)
  | [], segment => [segment]
  | c :: rest, segment => if c = '.' then segment :: split rest [] else split rest (segment ++ [c])

def FromDotSeparatedString (path : String) : Except String FieldPath :=
  if path.toList.any fun c => c ∈ reserved then
    .error ("Invalid field path (" ++ path ++
      "). Paths must not contain '~', '*', '/', '[', or ']'")
  else if (split path.toList []).any List.isEmpty then .error (emptySegment path)
  else .ok ((split path.toList []).map String.ofList)

theorem split_append {s segment : List Char} (h : '.' ∉ s) : split s segment = [segment ++ s] := by
  induction s generalizing segment with
  | nil => rw [split, List.append_nil]
  | cons c s ih =>
    rw [List.mem_cons, not_or] at h
    rw [split, if_neg (Ne.symm h.1), ih h.2, List.append_assoc, List.singleton_append]

theorem split_noDot {s segment : List Char} (h : '.' ∉ segment) :
    split s segment ≠ [] ∧ ∀ name ∈ split s segment, '.' ∉ name := by
  induction s generalizing segment with
  | nil => simpa [split] using h
  | cons c s ih =>
    rw [split]
    split
    · have hrest : split s [] ≠ [] ∧ ∀ name ∈ split s [], '.' ∉ name := ih (by simp)
      refine ⟨by simp, fun name hname => ?_⟩
      rcases List.mem_cons.mp hname with rfl | hname
      · exact h
      · exact hrest.2 name hname
    · rename_i hc
      exact ih (by simpa [Ne.symm hc] using h)

/-- A text without dots is one segment. -/
theorem fromDotSeparatedString_noDot {key : String} {path : FieldPath} (h : '.' ∉ key.toList)
    (hpath : FromDotSeparatedString key = .ok path) : path = [key] := by
  rw [FromDotSeparatedString] at hpath
  split at hpath
  · contradiction
  · split at hpath
    · contradiction
    · cases hpath
      rw [split_append h, List.nil_append, List.map_singleton, String.ofList_toList]

/-- A path that a text spells has segments, and none has a dot. -/
theorem fromDotSeparatedString_segments {key : String} {path : FieldPath}
    (hpath : FromDotSeparatedString key = .ok path) :
    path ≠ [] ∧ ∀ segment ∈ path, '.' ∉ segment.toList := by
  rw [FromDotSeparatedString] at hpath
  split at hpath
  · contradiction
  · split at hpath
    · contradiction
    · cases hpath
      obtain ⟨hne, hdots⟩ := split_noDot (s := key.toList) (List.not_mem_nil (a := '.'))
      refine ⟨by simpa using hne, fun segment hsegment => ?_⟩
      obtain ⟨name, hname, rfl⟩ := List.mem_map.mp hsegment
      rw [String.toList_ofList]
      exact hdots name hname

section Loop

variable {path : String} {s rest segment : List Char} {segments : FieldPath} {inside : Bool}

open FromServerFormat

theorem replaced_plain {c : Char} (h : c ≠ backslash) (h' : c ≠ backtick) : replaced c = [c] := by
  simp [replaced, h, h']

theorem identifier_chars (h : IsValidIdentifier s = true) {c : Char} (hc : c ∈ s) :
    c ≠ null ∧ c ≠ '.' ∧ c ≠ backtick ∧ c ≠ backslash := by
  have hclass : (identifierStart c || ('0' ≤ c && c ≤ '9')) = true := by
    cases s with
    | nil => contradiction
    | cons first rest =>
      simp only [IsValidIdentifier, Bool.and_eq_true, List.all_eq_true] at h
      rcases List.mem_cons.mp hc with rfl | hc
      · simp [h.1]
      · exact h.2 c hc
  refine ⟨?_, ?_, ?_, ?_⟩ <;> rintro rfl <;> revert hclass <;> decide

/-- Outside the special characters the loop takes a character as it is. -/
theorem loop_plain (h : ∀ c ∈ s, c ≠ null ∧ c ≠ '.' ∧ c ≠ backtick ∧ c ≠ backslash) :
    loop path (s ++ rest) inside segment segments = loop path rest inside (segment ++ s) segments := by
  induction s generalizing segment with
  | nil => simp
  | cons c s ih =>
    obtain ⟨hnull, hdot, htick, hslash⟩ := h c List.mem_cons_self
    rw [List.cons_append, loop.eq_def]
    simp only [hnull, hdot, htick, hslash, if_false]
    rw [ih fun d hd => h d (List.mem_cons_of_mem c hd), List.append_assoc, List.singleton_append]

/-- Inside backticks the loop takes back what has been replaced. -/
theorem loop_replaced (h : null ∉ s) : loop path (s.flatMap replaced ++ rest) true segment segments =
    loop path rest true (segment ++ s) segments := by
  induction s generalizing segment with
  | nil => simp
  | cons c s ih =>
    obtain ⟨hc, hs⟩ : c ≠ null ∧ null ∉ s := by
      rw [List.mem_cons, not_or] at h
      exact ⟨Ne.symm h.1, h.2⟩
    have hnext (taken : List Char) : loop path (s.flatMap replaced ++ rest) true taken segments =
        loop path rest true (taken ++ s) segments := ih hs
    rw [List.flatMap_cons, List.append_assoc]
    by_cases hslash : c = backslash
    · subst hslash
      have hreplaced : replaced backslash = [backslash, backslash] := rfl
      rw [hreplaced, List.cons_append, List.cons_append, List.nil_append, loop.eq_def]
      simp only [show backslash ≠ null by decide, show backslash ≠ '.' by decide,
        show backslash ≠ backtick by decide, if_false, if_true]
      rw [hnext, List.append_assoc, List.singleton_append]
    · by_cases htick : c = backtick
      · subst htick
        have hreplaced : replaced backtick = [backslash, backtick] := rfl
        rw [hreplaced, List.cons_append, List.cons_append, List.nil_append, loop.eq_def]
        simp only [show backslash ≠ null by decide, show backslash ≠ '.' by decide,
          show backslash ≠ backtick by decide, if_false, if_true]
        rw [hnext, List.append_assoc, List.singleton_append]
      · rw [replaced_plain hslash htick, List.singleton_append, loop.eq_def]
        simp only [hc, htick, hslash, if_false, if_true, ite_self]
        rw [hnext, List.append_assoc, List.singleton_append]

/-- A segment that is an identifier once replaced has nothing to replace. -/
theorem replaced_identifier (h : ∀ c ∈ s.flatMap replaced, c ≠ backslash) :
    s.flatMap replaced = s := by
  induction s with
  | nil => rfl
  | cons c s ih =>
    simp only [List.flatMap_cons, List.mem_append] at h
    have hc : c ≠ backslash ∧ c ≠ backtick := by
      refine ⟨fun hslash => ?_, fun htick => ?_⟩
      · exact h backslash (Or.inl (by simp [hslash, replaced])) rfl
      · exact h backslash (Or.inl (by subst htick; decide)) rfl
    rw [List.flatMap_cons, replaced_plain hc.1 hc.2, ih fun d hd => h d (Or.inr hd),
      List.singleton_append]

theorem loop_backtick : loop path (backtick :: rest) inside segment segments =
    loop path rest (!inside) segment segments := by
  rw [loop.eq_def]
  simp only [show backtick ≠ null by decide, show backtick ≠ '.' by decide, if_false, if_true]

theorem loop_dot : loop path ('.' :: rest) false segment segments =
    match finish_segment path segment segments with
    | .error e => .error e
    | .ok segments => loop path rest false [] segments := by
  rw [loop.eq_def]
  simp only [show '.' ≠ null by decide, if_false, if_true, Bool.false_eq_true]

theorem loop_segment {name : String} (h : null ∉ name.toList) :
    loop path (escaped_segment name ++ rest) false [] segments =
      loop path rest false name.toList segments := by
  unfold escaped_segment
  dsimp only
  split
  · rename_i hidentifier
    have hchars := fun c (hc : c ∈ name.toList.flatMap replaced) => identifier_chars hidentifier hc
    rw [loop_plain hchars, List.nil_append, replaced_identifier fun c hc => (hchars c hc).2.2.2]
  · rw [List.cons_append, List.cons_append, List.append_assoc, loop_backtick, Bool.not_false,
      loop_replaced h, List.nil_append, List.singleton_append, loop_backtick]
    rfl

/-- A segment that the canonical text keeps. -/
def Readable (segment : String) : Prop := segment ≠ "" ∧ null ∉ segment.toList

theorem finish_segment_readable {name : String} (h : Readable name) :
    finish_segment path name.toList segments = .ok (segments ++ [name]) := by
  have hne : name.toList ≠ [] := fun hnil => h.1 (String.toList_eq_nil_iff.mp hnil)
  rw [finish_segment, if_neg hne, String.ofList_toList]

theorem joined_cons {name next : String} {names : FieldPath} :
    joined (name :: next :: names) = escaped_segment name ++ '.' :: joined (next :: names) := rfl

theorem loop_joined {names : FieldPath} (hne : names ≠ []) (h : ∀ name ∈ names, Readable name) :
    loop path (joined names) false [] segments = .ok (segments ++ names) := by
  induction names generalizing segments with
  | nil => contradiction
  | cons name names ih =>
    have hname := h name List.mem_cons_self
    cases names with
    | nil =>
      rw [joined, ← List.append_nil (escaped_segment name), loop_segment hname.2, loop.eq_def]
      simp only [finish, finish_segment_readable hname, Bool.false_eq_true, if_false]
    | cons next names =>
      rw [joined_cons, loop_segment hname.2, loop_dot, finish_segment_readable hname]
      dsimp only
      rw [ih (by simp) fun n hn => h n (List.mem_cons_of_mem name hn), List.append_assoc,
        List.singleton_append]

/-- An empty segment or a null character in a segment ends the loop with an error. -/
theorem loop_unreadable {name : String} (h : ¬Readable name)
    (hrest : rest = [] ∨ ∃ tail, rest = '.' :: tail) :
    ∃ e, loop path (escaped_segment name ++ rest) false [] segments = .error e := by
  by_cases hnull : null ∈ name.toList
  · obtain ⟨before, after, hsplit, hbefore⟩ := List.eq_append_cons_of_mem hnull
    have hreplaced : name.toList.flatMap replaced =
        before.flatMap replaced ++ null :: after.flatMap replaced := by
      rw [hsplit, List.flatMap_append, List.flatMap_cons]
      rfl
    have hquoted : ¬IsValidIdentifier (name.toList.flatMap replaced) = true := by
      intro hidentifier
      exact (identifier_chars hidentifier (c := null) (by simp [hreplaced])).1 rfl
    unfold escaped_segment
    dsimp only
    rw [if_neg hquoted, hreplaced]
    simp only [List.cons_append, List.append_assoc]
    rw [loop_backtick, Bool.not_false, loop_replaced hbefore, loop.eq_def]
    simp only [if_true, finish]
    cases finish_segment path ([] ++ before) segments with
    | error e => exact ⟨e, rfl⟩
    | ok names => exact ⟨_, rfl⟩
  · have hempty : name = "" := by
      by_contra hne
      exact h ⟨hne, hnull⟩
    subst hempty
    have hescaped : escaped_segment "" = [backtick, backtick] := rfl
    rw [hescaped, List.cons_append, List.singleton_append, loop_backtick, loop_backtick,
      Bool.not_false, Bool.not_true]
    rcases hrest with rfl | ⟨tail, rfl⟩
    · exact ⟨_, rfl⟩
    · rw [loop_dot]
      exact ⟨_, rfl⟩

theorem loop_joined_error {names : FieldPath} (h : ∃ name ∈ names, ¬Readable name) :
    ∃ e, loop path (joined names) false [] segments = .error e := by
  induction names generalizing segments with
  | nil => simp at h
  | cons name names ih =>
    by_cases hname : Readable name
    · obtain ⟨bad, hmem, hbad⟩ := h
      have hlater : bad ∈ names := (List.mem_cons.mp hmem).resolve_left fun heq => hbad (heq ▸ hname)
      cases names with
      | nil => contradiction
      | cons next names =>
        rw [joined_cons, loop_segment hname.2, loop_dot, finish_segment_readable hname]
        exact ih ⟨bad, hlater, hbad⟩
    · cases names with
      | nil =>
        rw [joined, ← List.append_nil (escaped_segment name)]
        exact loop_unreadable hname (Or.inl rfl)
      | cons next names =>
        rw [joined_cons]
        exact loop_unreadable hname (Or.inr ⟨_, rfl⟩)

end Loop

/-- A path that has a canonical text of its own: it has a segment, and none is empty or has a null
character. -/
def Canonical (path : FieldPath) : Prop := path ≠ [] ∧ ∀ segment ∈ path, Readable segment

/-- The canonical text of a path is read back as the path exactly when the path has segments and none
is empty or has a null character; otherwise it is refused. -/
theorem fromServerFormat_canonicalString (path : FieldPath) :
    (FromServerFormat (CanonicalString path) = .ok path ↔ Canonical path) ∧
      (¬Canonical path → ∃ e, FromServerFormat (CanonicalString path) = .error e) := by
  have hrefused : ¬Canonical path → ∃ e, FromServerFormat (CanonicalString path) = .error e := by
    intro h
    unfold FromServerFormat CanonicalString
    rw [String.toList_ofList]
    by_cases hne : path = []
    · subst hne
      exact ⟨_, rfl⟩
    · refine loop_joined_error ?_
      by_contra hall
      simp only [not_exists, not_and, not_not] at hall
      exact h ⟨hne, hall⟩
  refine ⟨⟨fun h => ?_, fun h => ?_⟩, hrefused⟩
  · by_contra hnot
    obtain ⟨e, he⟩ := hrefused hnot
    rw [h] at he
    contradiction
  · unfold FromServerFormat CanonicalString
    rw [String.toList_ofList, loop_joined h.1 h.2, List.nil_append]

end FieldPath

end VoisinMalin
