import Mathlib.Data.List.Sort
import Mathlib.Data.String.Basic
import Mathlib.Tactic.Linarith

/-!
JSON texts as Python's `json.dumps` writes them: ASCII only, `", "` and `": "` as separators, the
members of an object in the order of their keys if asked for. A text has one value, so that equal
texts are texts of equal values, up to the order of members.
-/
namespace JsonText

section Escapes

/-- Four lowercase hexadecimal digits. -/
def hex4 (n : ℕ) : List Char :=
  [Nat.digitChar (n / 4096 % 16), Nat.digitChar (n / 256 % 16), Nat.digitChar (n / 16 % 16),
    Nat.digitChar (n % 16)]

/-- The text of a character inside a string. Those beyond the first 65536 become two surrogates. -/
def escape (c : Char) : List Char :=
  if c = '"' then ['\\', '"']
  else if c = '\\' then ['\\', '\\']
  else if c = '\n' then ['\\', 'n']
  else if c = '\r' then ['\\', 'r']
  else if c = '\t' then ['\\', 't']
  else if c = '\x0c' then ['\\', 'f']
  else if c = '\x08' then ['\\', 'b']
  else if ' ' ≤ c ∧ c ≤ '~' then [c]
  else if c.toNat < 65536 then '\\' :: 'u' :: hex4 c.toNat
  else '\\' :: 'u' :: (hex4 (55296 + (c.toNat - 65536) / 1024 % 1024) ++
    '\\' :: 'u' :: hex4 (56320 + (c.toNat - 65536) % 1024))

def hexValue (c : Char) : ℕ := if c.isDigit then c.toNat - 48 else c.toNat - 87

def value4 (a b c d : Char) : ℕ :=
  hexValue a * 4096 + hexValue b * 256 + hexValue c * 16 + hexValue d

/-- The first character of the rest of a string. -/
def unescape : List Char → Option (Char × List Char)
  | '\\' :: 'u' :: a :: b :: c :: d :: rest =>
      if 55296 ≤ value4 a b c d ∧ value4 a b c d < 56320 then
        match rest with
        | '\\' :: 'u' :: e :: f :: g :: h :: rest =>
            some (Char.ofNat (65536 + (value4 a b c d - 55296) * 1024 + (value4 e f g h - 56320)), rest)
        | _ => none
      else some (Char.ofNat (value4 a b c d), rest)
  | '\\' :: 'n' :: rest => some ('\n', rest)
  | '\\' :: 'r' :: rest => some ('\r', rest)
  | '\\' :: 't' :: rest => some ('\t', rest)
  | '\\' :: 'f' :: rest => some ('\x0c', rest)
  | '\\' :: 'b' :: rest => some ('\x08', rest)
  | '\\' :: c :: rest => some (c, rest)
  | c :: rest => some (c, rest)
  | [] => none

theorem hexValue_digitChar : ∀ n < 16, hexValue (Nat.digitChar n) = n := by decide

theorem value4_hex4 {n : ℕ} (h : n < 65536) :
    value4 (Nat.digitChar (n / 4096 % 16)) (Nat.digitChar (n / 256 % 16))
      (Nat.digitChar (n / 16 % 16)) (Nat.digitChar (n % 16)) = n := by
  unfold value4
  rw [hexValue_digitChar _ (Nat.mod_lt _ (by omega)), hexValue_digitChar _ (Nat.mod_lt _ (by omega)),
    hexValue_digitChar _ (Nat.mod_lt _ (by omega)), hexValue_digitChar _ (Nat.mod_lt _ (by omega))]
  omega

/-- A character is not a surrogate. -/
theorem not_surrogate (c : Char) : ¬ (55296 ≤ c.toNat ∧ c.toNat < 56320) := by
  intro h
  have hvalid : c.toNat < 55296 ∨ 57343 < c.toNat ∧ c.toNat < 1114112 := c.valid
  omega

theorem unescape_plain {c : Char} (h : c ≠ '\\') (rest : List Char) :
    unescape (c :: rest) = some (c, rest) := by
  unfold unescape
  split <;> simp_all

theorem unescape_escape (c : Char) (rest : List Char) :
    unescape (escape c ++ rest) = some (c, rest) := by
  by_cases hspecial : c = '"' ∨ c = '\\' ∨ c = '\n' ∨ c = '\r' ∨ c = '\t' ∨ c = '\x0c' ∨ c = '\x08'
  · rcases hspecial with rfl | rfl | rfl | rfl | rfl | rfl | rfl <;> rfl
  · simp only [not_or] at hspecial
    obtain ⟨hquote, hslash, hn, hr, ht, hf, hb⟩ := hspecial
    unfold escape
    rw [if_neg hquote, if_neg hslash, if_neg hn, if_neg hr, if_neg ht, if_neg hf, if_neg hb]
    by_cases hplain : ' ' ≤ c ∧ c ≤ '~'
    · rw [if_pos hplain]
      exact unescape_plain hslash rest
    · rw [if_neg hplain]
      by_cases hlow : c.toNat < 65536
      · rw [if_pos hlow]
        simp only [hex4, List.cons_append, List.nil_append, unescape, value4_hex4 hlow,
          if_neg (not_surrogate c), Char.ofNat_toNat]
      · have hvalid : c.toNat < 55296 ∨ 57343 < c.toNat ∧ c.toNat < 1114112 := c.valid
        have hfirst : 55296 + (c.toNat - 65536) / 1024 % 1024 < 65536 := by omega
        have hsecond : 56320 + (c.toNat - 65536) % 1024 < 65536 := by omega
        have hrange : 55296 ≤ 55296 + (c.toNat - 65536) / 1024 % 1024 ∧
            55296 + (c.toNat - 65536) / 1024 % 1024 < 56320 := by omega
        have hback : 65536 + (55296 + (c.toNat - 65536) / 1024 % 1024 - 55296) * 1024 +
            (56320 + (c.toNat - 65536) % 1024 - 56320) = c.toNat := by omega
        rw [if_neg hlow]
        simp only [hex4, List.cons_append, List.nil_append, unescape, value4_hex4 hfirst,
          value4_hex4 hsecond, if_pos hrange, hback, Char.ofNat_toNat]

theorem escape_inj {c d : Char} {xs ys : List Char} (h : escape c ++ xs = escape d ++ ys) :
    c = d ∧ xs = ys := by
  have hread := unescape_escape c xs
  rw [h, unescape_escape] at hread
  obtain ⟨hc, hxs⟩ := Prod.mk.inj (Option.some.inj hread)
  exact ⟨hc.symm, hxs.symm⟩

/-- No character is written as the end of the string. -/
theorem escape_ne_quote (c : Char) (xs ys : List Char) : escape c ++ xs ≠ '"' :: ys := by
  intro h
  have hread := unescape_escape c xs
  rw [h, unescape_plain (by decide)] at hread
  obtain ⟨rfl, -⟩ := Prod.mk.inj (Option.some.inj hread)
  exact absurd h (by simp [escape])

/-- The characters of a string up to its end. -/
theorem escapes_inj {s t xs ys : List Char}
    (h : s.flatMap escape ++ '"' :: xs = t.flatMap escape ++ '"' :: ys) : s = t ∧ xs = ys := by
  induction s generalizing t with
  | nil =>
    cases t with
    | nil => exact ⟨rfl, (List.cons.inj h).2⟩
    | cons d t =>
      rw [List.flatMap_cons, List.append_assoc] at h
      exact absurd h.symm (escape_ne_quote d _ _)
  | cons c s ih =>
    cases t with
    | nil =>
      rw [List.flatMap_cons, List.append_assoc] at h
      exact absurd h (escape_ne_quote c _ _)
    | cons d t =>
      rw [List.flatMap_cons, List.flatMap_cons, List.append_assoc, List.append_assoc] at h
      obtain ⟨hc, hrest⟩ := escape_inj h
      obtain ⟨hs, hxs⟩ := ih hrest
      exact ⟨congrArg₂ List.cons hc hs, hxs⟩

end Escapes

section Numbers

/-- What follows a number does not begin with a digit. -/
def Closed (xs : List Char) : Prop := ∀ c ∈ xs.head?, c.isDigit = false

def intText : ℤ → List Char
  | .ofNat n => Nat.toDigits 10 n
  | .negSucc n => '-' :: Nat.toDigits 10 (n + 1)

theorem takeWhile_closed {xs : List Char} (h : Closed xs) : xs.takeWhile Char.isDigit = [] := by
  cases xs with
  | nil => rfl
  | cons c xs => exact List.takeWhile_cons_of_neg (by simp [h c rfl])

theorem toDigits_inj {n m : ℕ} {xs ys : List Char} (hxs : Closed xs) (hys : Closed ys)
    (h : Nat.toDigits 10 n ++ xs = Nat.toDigits 10 m ++ ys) : n = m ∧ xs = ys := by
  have hdigits : ∀ (k : ℕ) (zs : List Char), Closed zs →
      (Nat.toDigits 10 k ++ zs).takeWhile Char.isDigit = Nat.toDigits 10 k := by
    intro k zs hzs
    rw [List.takeWhile_append_of_pos, takeWhile_closed hzs, List.append_nil]
    exact fun c hc => Nat.isDigit_of_mem_toDigits (by omega) (by omega) hc
  have hsame : Nat.toDigits 10 n = Nat.toDigits 10 m := by
    rw [← hdigits n xs hxs, h, hdigits m ys hys]
  have hvalue := congrArg (Nat.ofDigitChars 10 · 0) hsame
  simp only [Nat.ofDigitChars_ten_toDigits] at hvalue
  rw [hsame] at h
  exact ⟨hvalue, List.append_cancel_left h⟩

/-- A text of digits begins with a digit. -/
theorem head_toDigits (n : ℕ) : ∃ c rest, Nat.toDigits 10 n = c :: rest ∧ c.isDigit := by
  cases hdigits : Nat.toDigits 10 n with
  | nil => exact absurd hdigits Nat.toDigits_ne_nil
  | cons c rest =>
    refine ⟨c, rest, rfl, Nat.isDigit_of_mem_toDigits (b := 10) (n := n) (by omega) (by omega) ?_⟩
    rw [hdigits]
    exact List.mem_cons_self

theorem head_intText (i : ℤ) : ∃ c rest, intText i = c :: rest ∧ (c = '-' ∨ c.isDigit) := by
  cases i with
  | ofNat n =>
    obtain ⟨c, rest, hdigits, hc⟩ := head_toDigits n
    exact ⟨c, rest, hdigits, Or.inr hc⟩
  | negSucc n => exact ⟨'-', _, rfl, Or.inl rfl⟩

theorem intText_inj {i j : ℤ} {xs ys : List Char} (hxs : Closed xs) (hys : Closed ys)
    (h : intText i ++ xs = intText j ++ ys) : i = j ∧ xs = ys := by
  have hsign : ∀ (n m : ℕ) (us vs : List Char),
      Nat.toDigits 10 n ++ us ≠ '-' :: (Nat.toDigits 10 m ++ vs) := by
    intro n m us vs heq
    obtain ⟨c, rest, hdigits, hc⟩ := head_toDigits n
    rw [hdigits] at heq
    rw [(List.cons.inj heq).1] at hc
    contradiction
  cases i with
  | ofNat n =>
    cases j with
    | ofNat m =>
      obtain ⟨hn, hrest⟩ := toDigits_inj hxs hys h
      exact ⟨congrArg Int.ofNat hn, hrest⟩
    | negSucc m => exact absurd h (hsign n (m + 1) xs ys)
  | negSucc n =>
    cases j with
    | ofNat m => exact absurd h.symm (hsign m (n + 1) ys xs)
    | negSucc m =>
      obtain ⟨hn, hrest⟩ := toDigits_inj hxs hys (List.cons.inj h).2
      exact ⟨congrArg Int.negSucc (Nat.succ.inj hn), hrest⟩

end Numbers

section Values

/-- JSON values without floats. An object lists its members in the order of insertion. -/
inductive Value where
  | null
  | bool (b : Bool)
  | int (i : ℤ)
  | str (s : String)
  | arr (xs : List Value)
  | obj (members : List (String × Value))

def strText (s : String) : List Char := '"' :: (s.toList.flatMap escape ++ ['"'])

mutual

/-- `json.dumps` without `sort_keys`. -/
def text : Value → List Char
  | .null => ['n', 'u', 'l', 'l']
  | .bool true => ['t', 'r', 'u', 'e']
  | .bool false => ['f', 'a', 'l', 's', 'e']
  | .int i => intText i
  | .str s => strText s
  | .arr xs => '[' :: itemsText xs
  | .obj members => '{' :: membersText members

/-- The items of an array and its end. -/
def itemsText : List Value → List Char
  | [] => [']']
  | x :: xs => text x ++ moreItems xs

def moreItems : List Value → List Char
  | [] => [']']
  | x :: xs => ',' :: ' ' :: (text x ++ moreItems xs)

/-- The members of an object and its end. -/
def membersText : List (String × Value) → List Char
  | [] => ['}']
  | (k, v) :: members => strText k ++ ':' :: ' ' :: (text v ++ moreMembers members)

def moreMembers : List (String × Value) → List Char
  | [] => ['}']
  | (k, v) :: members => ',' :: ' ' :: (strText k ++ ':' :: ' ' :: (text v ++ moreMembers members))

end

theorem strText_inj {s t : String} {xs ys : List Char} (h : strText s ++ xs = strText t ++ ys) :
    s = t ∧ xs = ys := by
  unfold strText at h
  simp only [List.cons_append, List.append_assoc, List.nil_append] at h
  obtain ⟨hs, hrest⟩ := escapes_inj (List.cons.inj h).2
  exact ⟨String.toList_inj.mp hs, hrest⟩

theorem closed_cons {c : Char} (h : c.isDigit = false) (xs : List Char) : Closed (c :: xs) := by
  intro d hd
  obtain rfl := Option.some.inj hd
  exact h

theorem closed_moreItems (xs : List Value) (ys : List Char) : Closed (moreItems xs ++ ys) := by
  cases xs with
  | nil => exact closed_cons (by decide) _
  | cons x xs => exact closed_cons (by decide) _

theorem closed_moreMembers (ms : List (String × Value)) (ys : List Char) :
    Closed (moreMembers ms ++ ys) := by
  cases ms with
  | nil => exact closed_cons (by decide) _
  | cons m ms => exact closed_cons (by decide) _

/-- The first characters of texts, which tell the kinds of values apart. -/
inductive Mark : Value → Char → Prop
  | null : Mark .null 'n'
  | true : Mark (.bool true) 't'
  | false : Mark (.bool false) 'f'
  | int (i : ℤ) (c : Char) (h : c = '-' ∨ c.isDigit) : Mark (.int i) c
  | str (s : String) : Mark (.str s) '"'
  | arr (xs : List Value) : Mark (.arr xs) '['
  | obj (ms : List (String × Value)) : Mark (.obj ms) '{'

theorem mark_of_text (v : Value) : ∃ c rest, text v = c :: rest ∧ Mark v c := by
  cases v with
  | null => exact ⟨_, _, rfl, .null⟩
  | bool b =>
    cases b with
    | false => exact ⟨_, _, rfl, .false⟩
    | true => exact ⟨_, _, rfl, .true⟩
  | int i =>
    obtain ⟨c, rest, htext, hc⟩ := head_intText i
    exact ⟨c, rest, by rw [text, htext], .int i c hc⟩
  | str s => exact ⟨_, _, rfl, .str s⟩
  | arr xs => exact ⟨_, _, by rw [text], .arr xs⟩
  | obj ms => exact ⟨_, _, by rw [text], .obj ms⟩

/-- Texts with a common start have the same mark. -/
theorem marks_of_text {v w : Value} {xs ys : List Char} (h : text v ++ xs = text w ++ ys) :
    ∃ c, Mark v c ∧ Mark w c := by
  obtain ⟨c, rest, hv, hc⟩ := mark_of_text v
  obtain ⟨d, rest', hw, hd⟩ := mark_of_text w
  rw [hv, hw] at h
  obtain rfl := (List.cons.inj h).1
  exact ⟨c, hc, hd⟩

theorem not_mark_end (v : Value) : ¬ Mark v ']' := by
  intro h
  cases h with
  | int i c h => exact absurd h (by decide)

mutual

/-- A text has one value, whatever follows it. -/
theorem text_inj (v w : Value) (xs ys : List Char) (hxs : Closed xs) (hys : Closed ys)
    (h : text v ++ xs = text w ++ ys) : v = w ∧ xs = ys := by
  obtain ⟨c, hv, hw⟩ := marks_of_text h
  cases v with
  | null =>
    cases hv
    cases hw with
    | null => exact ⟨rfl, List.append_cancel_left h⟩
    | int i c hc => exact absurd hc (by decide)
  | bool b =>
    cases b with
    | false =>
      cases hv
      cases hw with
      | false => exact ⟨rfl, List.append_cancel_left h⟩
      | int i c hc => exact absurd hc (by decide)
    | true =>
      cases hv
      cases hw with
      | true => exact ⟨rfl, List.append_cancel_left h⟩
      | int i c hc => exact absurd hc (by decide)
  | int i =>
    obtain ⟨hc⟩ := hv
    cases hw with
    | int j _ _ =>
      rw [text, text] at h
      obtain ⟨hi, hrest⟩ := intText_inj hxs hys h
      exact ⟨congrArg Value.int hi, hrest⟩
    | _ => exact absurd ‹_› (by decide)
  | str s =>
    cases hv
    cases hw with
    | str t =>
      rw [text, text] at h
      obtain ⟨hs, hrest⟩ := strText_inj h
      exact ⟨congrArg Value.str hs, hrest⟩
    | int i c hc => exact absurd hc (by decide)
  | arr vs =>
    cases hv
    cases hw with
    | arr ws =>
      rw [text, text] at h
      obtain ⟨hvs, hrest⟩ := itemsText_inj vs ws xs ys (List.cons.inj h).2
      exact ⟨congrArg Value.arr hvs, hrest⟩
    | int i c hc => exact absurd hc (by decide)
  | obj ms =>
    cases hv
    cases hw with
    | obj ns =>
      rw [text, text] at h
      obtain ⟨hms, hrest⟩ := membersText_inj ms ns xs ys (List.cons.inj h).2
      exact ⟨congrArg Value.obj hms, hrest⟩
    | int i c hc => exact absurd hc (by decide)
termination_by structural v

theorem itemsText_inj (vs ws : List Value) (xs ys : List Char)
    (h : itemsText vs ++ xs = itemsText ws ++ ys) : vs = ws ∧ xs = ys := by
  have hend : ∀ (w : Value) (us zs : List Char), ']' :: us ≠ text w ++ zs := by
    intro w us zs heq
    obtain ⟨c, rest, htext, hc⟩ := mark_of_text w
    rw [htext] at heq
    obtain rfl := (List.cons.inj heq).1
    exact not_mark_end w hc
  cases vs with
  | nil =>
    cases ws with
    | nil => exact ⟨rfl, List.append_cancel_left h⟩
    | cons w ws =>
      rw [itemsText, itemsText, List.append_assoc] at h
      exact absurd h (hend w _ _)
  | cons v vs =>
    cases ws with
    | nil =>
      rw [itemsText, itemsText, List.append_assoc] at h
      exact absurd h.symm (hend v _ _)
    | cons w ws =>
      rw [itemsText, itemsText, List.append_assoc, List.append_assoc] at h
      obtain ⟨hv, hrest⟩ := text_inj v w _ _ (closed_moreItems vs xs) (closed_moreItems ws ys) h
      obtain ⟨hvs, hxs⟩ := moreItems_inj vs ws xs ys hrest
      exact ⟨congrArg₂ List.cons hv hvs, hxs⟩
termination_by structural vs

theorem moreItems_inj (vs ws : List Value) (xs ys : List Char)
    (h : moreItems vs ++ xs = moreItems ws ++ ys) : vs = ws ∧ xs = ys := by
  cases vs with
  | nil =>
    cases ws with
    | nil => exact ⟨rfl, List.append_cancel_left h⟩
    | cons w ws =>
      rw [moreItems, moreItems] at h
      exact absurd (List.cons.inj h).1 (by decide)
  | cons v vs =>
    cases ws with
    | nil =>
      rw [moreItems, moreItems] at h
      exact absurd (List.cons.inj h).1 (by decide)
    | cons w ws =>
      rw [moreItems, moreItems] at h
      simp only [List.cons_append, List.append_assoc, List.cons.injEq, true_and] at h
      obtain ⟨hv, hrest⟩ := text_inj v w _ _ (closed_moreItems vs xs) (closed_moreItems ws ys) h
      obtain ⟨hvs, hxs⟩ := moreItems_inj vs ws xs ys hrest
      exact ⟨congrArg₂ List.cons hv hvs, hxs⟩
termination_by structural vs

theorem membersText_inj (ms ns : List (String × Value)) (xs ys : List Char)
    (h : membersText ms ++ xs = membersText ns ++ ys) : ms = ns ∧ xs = ys := by
  cases ms with
  | nil =>
    cases ns with
    | nil => exact ⟨rfl, List.append_cancel_left h⟩
    | cons n ns =>
      rw [membersText, membersText] at h
      exact absurd (List.cons.inj h).1 (by decide)
  | cons m ms =>
    cases ns with
    | nil =>
      rw [membersText, membersText] at h
      exact absurd (List.cons.inj h).1 (by decide)
    | cons n ns =>
      obtain ⟨k, v⟩ := m
      obtain ⟨l, w⟩ := n
      rw [membersText, membersText] at h
      simp only [List.append_assoc, List.cons_append] at h
      obtain ⟨hk, hrest⟩ := strText_inj h
      simp only [List.cons.injEq, true_and] at hrest
      obtain ⟨hv, hrest⟩ := text_inj v w _ _ (closed_moreMembers ms xs) (closed_moreMembers ns ys) hrest
      obtain ⟨hms, hxs⟩ := moreMembers_inj ms ns xs ys hrest
      exact ⟨congrArg₂ List.cons (congrArg₂ Prod.mk hk hv) hms, hxs⟩
termination_by structural ms

theorem moreMembers_inj (ms ns : List (String × Value)) (xs ys : List Char)
    (h : moreMembers ms ++ xs = moreMembers ns ++ ys) : ms = ns ∧ xs = ys := by
  cases ms with
  | nil =>
    cases ns with
    | nil => exact ⟨rfl, List.append_cancel_left h⟩
    | cons n ns =>
      rw [moreMembers, moreMembers] at h
      exact absurd (List.cons.inj h).1 (by decide)
  | cons m ms =>
    cases ns with
    | nil =>
      rw [moreMembers, moreMembers] at h
      exact absurd (List.cons.inj h).1 (by decide)
    | cons n ns =>
      obtain ⟨k, v⟩ := m
      obtain ⟨l, w⟩ := n
      rw [moreMembers, moreMembers] at h
      simp only [List.cons_append, List.append_assoc, List.cons.injEq, true_and] at h
      obtain ⟨hk, hrest⟩ := strText_inj h
      simp only [List.cons.injEq, true_and] at hrest
      obtain ⟨hv, hrest⟩ := text_inj v w _ _ (closed_moreMembers ms xs) (closed_moreMembers ns ys) hrest
      obtain ⟨hms, hxs⟩ := moreMembers_inj ms ns xs ys hrest
      exact ⟨congrArg₂ List.cons (congrArg₂ Prod.mk hk hv) hms, hxs⟩
termination_by structural ms

end

theorem text_injective : Function.Injective text := by
  intro v w h
  refine (text_inj v w [] [] ?_ ?_ (congrArg (· ++ []) h)).1
  · exact fun _ hc => absurd hc (by simp)
  · exact fun _ hc => absurd hc (by simp)

end Values

section Order

/-- The order in which `sort_keys` writes members. -/
def ByKey (m n : String × Value) : Prop := m.1 ≤ n.1

instance : DecidableRel ByKey := fun m n => inferInstanceAs (Decidable (m.1 ≤ n.1))

instance : Std.Total ByKey := ⟨fun m n => le_total m.1 n.1⟩

instance : IsTrans (String × Value) ByKey := ⟨fun _ _ _ h h' => le_trans h h'⟩

mutual

/-- The value with the members of all its objects in the order of their keys. -/
def sorted : Value → Value
  | .arr xs => .arr (sortedItems xs)
  | .obj members => .obj (sortedMembers members)
  | v => v

def sortedItems : List Value → List Value
  | [] => []
  | x :: xs => sorted x :: sortedItems xs

def sortedMembers : List (String × Value) → List (String × Value)
  | [] => []
  | (k, v) :: members => (sortedMembers members).orderedInsert ByKey (k, sorted v)

end

/-- `json.dumps(value, sort_keys=True)`. -/
def dumps (v : Value) : String := String.ofList (text (sorted v))

mutual

/-- The values differ at most in the order of members: the objects have the same keys, with values
of which this holds again. -/
def Same : Value → Value → Prop
  | .arr xs, w => ∃ ys, w = .arr ys ∧ SameItems xs ys
  | .obj ms, w => ∃ ns, w = .obj ns ∧ ns.length = ms.length ∧ SameMembers ms ns
  | v, w => v = w

def SameItems : List Value → List Value → Prop
  | [], ys => ys = []
  | x :: xs, ys => ∃ z zs, ys = z :: zs ∧ Same x z ∧ SameItems xs zs

def SameMembers : List (String × Value) → List (String × Value) → Prop
  | [], _ => True
  | (k, v) :: ms, ns => (∃ w, ns.lookup k = some w ∧ Same v w) ∧ SameMembers ms ns

end

mutual

/-- No object has a key twice, as in a Python dictionary. -/
def Distinct : Value → Prop
  | .arr xs => DistinctItems xs
  | .obj ms => (ms.map Prod.fst).Nodup ∧ DistinctMembers ms
  | _ => True

def DistinctItems : List Value → Prop
  | [] => True
  | x :: xs => Distinct x ∧ DistinctItems xs

def DistinctMembers : List (String × Value) → Prop
  | [] => True
  | (_, v) :: ms => Distinct v ∧ DistinctMembers ms

end

theorem sortedMembers_eq (ms : List (String × Value)) :
    sortedMembers ms = (ms.map fun m => (m.1, sorted m.2)).insertionSort ByKey := by
  induction ms with
  | nil => rfl
  | cons m ms ih =>
    obtain ⟨k, v⟩ := m
    rw [sortedMembers, ih]
    rfl

theorem lookup_eq_some_iff_of_nodup {ms : List (String × Value)} (h : (ms.map Prod.fst).Nodup)
    (k : String) (v : Value) : ms.lookup k = some v ↔ (k, v) ∈ ms := by
  induction ms with
  | nil => simp
  | cons m ms ih =>
    obtain ⟨l, w⟩ := m
    rw [List.map_cons, List.nodup_cons] at h
    by_cases hk : k = l
    · subst hk
      rw [List.lookup_cons_self, List.mem_cons]
      constructor
      · intro hw
        exact Or.inl (congrArg (Prod.mk k) (Option.some.inj hw).symm)
      · intro hmem
        rcases hmem with hmem | hmem
        · exact congrArg some (Prod.mk.inj hmem).2.symm
        · exact absurd (List.mem_map_of_mem (f := Prod.fst) hmem) h.1
    · have hne : (k == l) = false := beq_false_of_ne hk
      rw [List.lookup_cons, hne, List.mem_cons, ih h.2]
      constructor
      · exact Or.inr
      · intro hmem
        rcases hmem with hmem | hmem
        · exact absurd (Prod.mk.inj hmem).1 hk
        · exact hmem

/-- Objects whose members agree up to their order are written in the same order. -/
theorem sortedMembers_eq_iff {ms ns : List (String × Value)} (hms : (ms.map Prod.fst).Nodup)
    (hns : (ns.map Prod.fst).Nodup) : sortedMembers ms = sortedMembers ns ↔
      ns.length = ms.length ∧ ∀ m ∈ ms, ∃ w, ns.lookup m.1 = some w ∧ sorted m.2 = sorted w := by
  set f : String × Value → String × Value := fun m => (m.1, sorted m.2) with hf
  have hkeys : ∀ l : List (String × Value), (l.map f).map Prod.fst = l.map Prod.fst := fun l => by
    rw [List.map_map]
    rfl
  have hperm : sortedMembers ms = sortedMembers ns ↔ (ms.map f).Perm (ns.map f) := by
    rw [sortedMembers_eq, sortedMembers_eq]
    constructor
    · intro h
      exact ((List.perm_insertionSort ByKey _).symm.trans (List.Perm.of_eq h)).trans
        (List.perm_insertionSort ByKey _)
    · intro h
      refine List.Perm.eq_of_pairwise ?_ (List.pairwise_insertionSort ByKey _)
        (List.pairwise_insertionSort ByKey _) ?_
      · intro m n hm hn hmn hnm
        have hkey : m.1 = n.1 := le_antisymm hmn hnm
        have hm' : m ∈ ns.map f := h.mem_iff.mp ((List.mem_insertionSort ByKey).mp hm)
        have hn' : n ∈ ns.map f := (List.mem_insertionSort ByKey).mp hn
        exact List.inj_on_of_nodup_map ((hkeys ns).symm ▸ hns) hm' hn' hkey
      · exact ((List.perm_insertionSort ByKey _).trans h).trans
          (List.perm_insertionSort ByKey _).symm
  rw [hperm]
  constructor
  · intro h
    refine ⟨by simpa using h.length_eq.symm, fun m hm => ?_⟩
    obtain ⟨n, hn, heq⟩ := List.mem_map.mp (h.mem_iff.mp (List.mem_map_of_mem (f := f) hm))
    obtain ⟨hkey, hvalue⟩ := Prod.mk.inj heq
    refine ⟨n.2, (lookup_eq_some_iff_of_nodup hns m.1 n.2).mpr ?_, hvalue.symm⟩
    rw [← hkey]
    exact hn
  · intro ⟨hlength, hsame⟩
    have hnodup : (ms.map f).Nodup := List.Nodup.of_map Prod.fst ((hkeys ms).symm ▸ hms)
    apply (List.subperm_of_subset hnodup _).perm_of_length_le
    · rw [List.length_map, List.length_map, hlength]
    · intro x hx
      obtain ⟨m, hm, rfl⟩ := List.mem_map.mp hx
      obtain ⟨w, hw, hvalue⟩ := hsame m hm
      refine List.mem_map.mpr ⟨(m.1, w), (lookup_eq_some_iff_of_nodup hns m.1 w).mp hw, ?_⟩
      rw [hf]
      exact congrArg (Prod.mk m.1) hvalue.symm

theorem distinct_of_lookup {ms : List (String × Value)} (h : DistinctMembers ms) {k : String}
    {v : Value} (hv : ms.lookup k = some v) : Distinct v := by
  induction ms with
  | nil => contradiction
  | cons m ms ih =>
    obtain ⟨l, w⟩ := m
    rw [DistinctMembers] at h
    by_cases hk : k = l
    · subst hk
      rw [List.lookup_cons_self] at hv
      obtain rfl := Option.some.inj hv
      exact h.1
    · rw [List.lookup_cons, beq_false_of_ne hk] at hv
      exact ih h.2 hv

mutual

/-- Without repeated keys, values are the same exactly if they are written the same way. -/
theorem same_iff (v w : Value) (hv : Distinct v) (hw : Distinct w) :
    Same v w ↔ sorted v = sorted w := by
  cases v with
  | arr xs =>
    cases w with
    | arr ys =>
      rw [Distinct] at hv hw
      simp only [Same, sorted, Value.arr.injEq, exists_eq_left']
      exact sameItems_iff xs ys hv hw
    | _ => simp [Same, sorted]
  | obj ms =>
    cases w with
    | obj ns =>
      rw [Distinct] at hv hw
      simp only [Same, sorted, Value.obj.injEq, exists_eq_left']
      rw [sortedMembers_eq_iff hv.1 hw.1, sameMembers_iff ms ns hv.2 hw.2]
    | _ => simp [Same, sorted]
  | _ =>
    cases w with
    | _ => simp [Same, sorted]
termination_by structural v

theorem sameItems_iff (xs ys : List Value) (hxs : DistinctItems xs) (hys : DistinctItems ys) :
    SameItems xs ys ↔ sortedItems xs = sortedItems ys := by
  cases xs with
  | nil =>
    cases ys with
    | nil => simp [SameItems]
    | cons y ys => simp [SameItems, sortedItems]
  | cons x xs =>
    cases ys with
    | nil => simp [SameItems, sortedItems]
    | cons y ys =>
      rw [DistinctItems] at hxs hys
      rw [SameItems, sortedItems, sortedItems, List.cons.injEq, ← same_iff x y hxs.1 hys.1,
        ← sameItems_iff xs ys hxs.2 hys.2]
      constructor
      · intro ⟨z, zs, heq, hx, hrest⟩
        obtain ⟨rfl, rfl⟩ := List.cons.inj heq
        exact ⟨hx, hrest⟩
      · intro ⟨hx, hrest⟩
        exact ⟨y, ys, rfl, hx, hrest⟩
termination_by structural xs

theorem sameMembers_iff (ms ns : List (String × Value)) (hms : DistinctMembers ms)
    (hns : DistinctMembers ns) : SameMembers ms ns ↔
      ∀ m ∈ ms, ∃ w, ns.lookup m.1 = some w ∧ sorted m.2 = sorted w := by
  cases ms with
  | nil => simp [SameMembers]
  | cons m ms =>
    obtain ⟨k, v⟩ := m
    rw [DistinctMembers] at hms
    rw [SameMembers, sameMembers_iff ms ns hms.2 hns, List.forall_mem_cons]
    refine and_congr_left fun _ => exists_congr fun w => and_congr_right fun hw => ?_
    exact same_iff v w hms.1 (distinct_of_lookup hns hw)
termination_by structural ms

end

/-- Dictionaries have one text exactly if they differ at most in the order of keys. -/
theorem dumps_eq_iff {v w : Value} (hv : Distinct v) (hw : Distinct w) :
    dumps v = dumps w ↔ Same v w := by
  rw [same_iff v w hv hw]
  constructor
  · intro h
    exact text_injective (String.ofList_injective h)
  · intro h
    exact congrArg (fun v => String.ofList (text v)) h

/-- The keys in the other order, a quote and a character beyond ASCII. -/
example : dumps (.obj [("b", .arr [.int (-12), .null]), ("a", .str "\"é")]) =
    "\x7b\"a\": \"\\\"\\u00e9\", \"b\": [-12, null]\x7d" := by decide +kernel

end Order

end JsonText
