import Mathlib.Data.List.DropRight
import MediaPreview.Lib.Text

/-!
# Numbers written as texts

Python's `int` of a text: digits of any script with single underscores between them, a sign before them, white space
around. `Numeral` is the grammar, and `readInt` reads just the texts of it (`readInt_eq_some_iff`).

Of a text that has a character beyond ASCII, `int` first writes the white space beyond ASCII as blanks and the decimal
digits as those of ASCII, and keeps the rest; what it then skips is the white space of C.
-/

namespace MediaPreview.Text

/-! ### Trimming a text -/

section Trimming

variable {α : Type*} {p : α → Bool}

/-- The text between what is trimmed off its ends. -/
theorem trim_append {l s r : List α} (hl : ∀ c ∈ l, p c = true) (hr : ∀ c ∈ r, p c = true)
    (hfirst : ∀ c ∈ s.head?, p c = false) (hlast : ∀ c ∈ s.getLast?, p c = false) :
    ((l ++ s ++ r).dropWhile p).rdropWhile p = s := by
  have hback : ∀ t : List α, (∀ c ∈ t.getLast?, p c = false) → (t ++ r).rdropWhile p = t := by
    intro t ht
    rw [List.rdropWhile, List.reverse_append, List.dropWhile_append_of_pos (fun c hc => hr c (List.mem_reverse.1 hc))]
    have hself : t.reverse.dropWhile p = t.reverse := by
      cases htr : t.reverse with
      | nil => rfl
      | cons c u =>
        have hc : c ∈ t.getLast? := by
          rw [← List.head?_reverse, htr]
          rfl
        rw [List.dropWhile_cons_of_neg (by simp [ht c hc])]
    rw [hself, List.reverse_reverse]
  rw [List.append_assoc, List.dropWhile_append_of_pos hl]
  cases s with
  | nil =>
    rw [List.nil_append, List.dropWhile_eq_nil_iff.2 hr]
    rfl
  | cons c s =>
    rw [List.cons_append, List.dropWhile_cons_of_neg (by simp [hfirst c rfl]), ← List.cons_append]
    exact hback _ hlast

/-- A text is its trimmed text, between two texts that trimming takes off. -/
theorem exists_append_trim (p : α → Bool) (t : List α) :
    ∃ l r, t = l ++ (t.dropWhile p).rdropWhile p ++ r ∧ (∀ c ∈ l, p c = true) ∧ ∀ c ∈ r, p c = true := by
  refine ⟨t.takeWhile p, (t.dropWhile p).rtakeWhile p, ?_, fun c hc => List.mem_takeWhile_imp hc, fun c hc => ?_⟩
  · have hback : (t.dropWhile p).rdropWhile p ++ (t.dropWhile p).rtakeWhile p = t.dropWhile p := by
      rw [List.rdropWhile, List.rtakeWhile, ← List.reverse_append, List.takeWhile_append_dropWhile, List.reverse_reverse]
    rw [List.append_assoc, hback, List.takeWhile_append_dropWhile]
  · exact List.mem_takeWhile_imp (List.mem_reverse.1 hc)

end Trimming

/-! ### Reading -/

/-- What `int` skips around a number: the white space of C, and what is beyond ASCII. -/
def skips (c : Char) : Bool :=
  (9 ≤ c.toNat ∧ c.toNat ≤ 13) ∨ c.toNat = 32 ∨ c.toNat = 133 ∨ c.toNat = 160 ∨ c.toNat = 5760 ∨
    (8192 ≤ c.toNat ∧ c.toNat ≤ 8202) ∨ c.toNat = 8232 ∨ c.toNat = 8233 ∨ c.toNat = 8239 ∨ c.toNat = 8287 ∨
    c.toNat = 12288

/-- Digits, with single underscores between them. -/
def readDigits (acc : ℕ) : List Char → Option ℕ
  | [] => some acc
  | c :: s =>
    if c = '_' then
      match s with
      | [] => none
      | c :: s => (digitValue c).bind fun v => readDigits (10 * acc + v) s
    else (digitValue c).bind fun v => readDigits (10 * acc + v) s

/-- The most digits of a number. -/
def maxDigits : ℕ := 4300

/-- A number without its sign. -/
def readNumber (s : List Char) : Option ℕ :=
  if s.head? = some '_' ∨ s = [] ∨ maxDigits < s.countP (· ≠ '_') then none else readDigits 0 s

/-- A number, with its sign. -/
def readSigned : List Char → Option ℤ
  | '-' :: s => (readNumber s).map fun n => -Int.ofNat n
  | '+' :: s => (readNumber s).map Int.ofNat
  | s => (readNumber s).map Int.ofNat

/-- `int(text)`. -/
def readInt (text : List Char) : Option ℤ := readSigned ((text.dropWhile skips).rdropWhile skips)

/-! ### The grammar -/

/-- Digits with single underscores between them, and the number they write. -/
inductive Digits : List Char → ℕ → Prop where
  /-- A digit. -/
  | digit {c : Char} {v : ℕ} : digitValue c = some v → Digits [c] v
  /-- One more digit. -/
  | next {s : List Char} {n : ℕ} {c : Char} {v : ℕ} :
    Digits s n → digitValue c = some v → Digits (s ++ [c]) (10 * n + v)
  /-- One more digit, after an underscore. -/
  | underscore {s : List Char} {n : ℕ} {c : Char} {v : ℕ} :
    Digits s n → digitValue c = some v → Digits (s ++ ['_', c]) (10 * n + v)

/-- A number, with or without a sign. -/
inductive Signed : List Char → ℤ → Prop where
  /-- No sign. -/
  | plain {s : List Char} {n : ℕ} : Digits s n → s.countP (· ≠ '_') ≤ maxDigits → Signed s n
  /-- A plus sign. -/
  | plus {s : List Char} {n : ℕ} : Digits s n → s.countP (· ≠ '_') ≤ maxDigits → Signed ('+' :: s) n
  /-- A minus sign. -/
  | minus {s : List Char} {n : ℕ} : Digits s n → s.countP (· ≠ '_') ≤ maxDigits → Signed ('-' :: s) (-n)

/-- A number, with white space around it. -/
def Numeral (text : List Char) (n : ℤ) : Prop :=
  ∃ l s r, text = l ++ s ++ r ∧ (∀ c ∈ l, skips c = true) ∧ (∀ c ∈ r, skips c = true) ∧ Signed s n

/-! ### What is a digit -/

theorem digitValue_eq_some {c : Char} {v : ℕ} (h : digitValue c = some v) :
    ∃ z ∈ decimalZeros, z ≤ c.toNat ∧ c.toNat < z + 10 := by
  obtain ⟨z, hz, -⟩ := Option.map_eq_some_iff.1 h
  have hin := List.find?_some hz
  exact ⟨z, List.mem_of_find?_eq_some hz, of_decide_eq_true hin⟩

/-- The zeros leave out the white space, and the signs of a number. -/
theorem digitValue_ne {c : Char} {v : ℕ} (h : digitValue c = some v) :
    skips c = false ∧ c ≠ '_' ∧ c ≠ '-' ∧ c ≠ '+' ∧ c ≠ ':' := by
  obtain ⟨z, hz, hle, hlt⟩ := digitValue_eq_some h
  have hfar : ∀ z ∈ decimalZeros, 48 ≤ z ∧ (z = 48 ∨ 170 < z) ∧ (z + 10 ≤ 5760 ∨ 5760 < z) ∧
      (z + 10 ≤ 8192 ∨ 12288 < z) ∧ z ≠ 95 := by decide
  obtain ⟨hlow, hlatin, hogham, hgeneral, -⟩ := hfar z hz
  have hne : ∀ d : Char, d.toNat ≠ c.toNat → c ≠ d := fun d hd heq => hd (heq ▸ rfl)
  refine ⟨decide_eq_false ?_, hne _ ?_, hne _ ?_, hne _ ?_, hne _ ?_⟩
  · omega
  · show 95 ≠ c.toNat
    omega
  · show 45 ≠ c.toNat
    omega
  · show 43 ≠ c.toNat
    omega
  · show 58 ≠ c.toNat
    omega

/-! ### The texts that are read -/

theorem Digits.ne_nil {s : List Char} {n : ℕ} (h : Digits s n) : s ≠ [] := by
  cases h <;> simp

theorem Digits.head_digit {s : List Char} {n : ℕ} (h : Digits s n) : ∀ c ∈ s.head?, ∃ v, digitValue c = some v := by
  induction h with
  | digit hv =>
    intro c hc
    obtain rfl := Option.some.inj hc
    exact ⟨_, hv⟩
  | next hs _ ih | underscore hs _ ih =>
    intro c hc
    rw [List.head?_append_of_ne_nil _ hs.ne_nil] at hc
    exact ih c hc

theorem Digits.last_digit {s : List Char} {n : ℕ} (h : Digits s n) : ∀ c ∈ s.getLast?, ∃ v, digitValue c = some v := by
  intro d hd
  cases h with
  | digit hv | next _ hv | underscore _ hv =>
    simp only [List.getLast?_singleton, List.getLast?_append, List.getLast?_cons_cons, Option.some_or, Option.mem_def,
      Option.some.injEq] at hd
    exact ⟨_, hd ▸ hv⟩

theorem readDigits_digit {c : Char} {v : ℕ} (h : digitValue c = some v) (acc : ℕ) (s : List Char) :
    readDigits acc (c :: s) = readDigits (10 * acc + v) s := by
  rw [readDigits.eq_def]
  dsimp only
  rw [if_neg (digitValue_ne h).2.1, h, Option.bind_some]

theorem readDigits_underscore {c : Char} {v : ℕ} (h : digitValue c = some v) (acc : ℕ) (s : List Char) :
    readDigits acc ('_' :: c :: s) = readDigits (10 * acc + v) s := by
  rw [readDigits.eq_def]
  dsimp only
  rw [if_pos rfl, h, Option.bind_some]

/-- Digits are read, and what comes after them with their number. -/
theorem Digits.readDigits_append {s : List Char} {n : ℕ} (h : Digits s n) (t : List Char) :
    readDigits 0 (s ++ t) = readDigits n t := by
  induction h generalizing t with
  | digit hv =>
    rw [List.singleton_append, readDigits_digit hv, Nat.mul_zero, Nat.zero_add]
  | next _ hv ih =>
    rw [List.append_assoc, ih, List.singleton_append, readDigits_digit hv]
  | underscore _ hv ih =>
    rw [List.append_assoc, ih, List.cons_append, List.singleton_append, readDigits_underscore hv]

/-- What is read after digits makes digits with them. -/
theorem Digits.of_readDigits {acc : ℕ} {s t : List Char} {n : ℕ} (ht : Digits t acc) (h : readDigits acc s = some n) :
    Digits (t ++ s) n := by
  induction acc, s using readDigits.induct generalizing t with
  | case1 acc =>
    obtain rfl := Option.some.inj h
    rwa [List.append_nil]
  | case2 acc => cases h
  | case3 acc c s ih =>
    rw [readDigits.eq_def] at h
    dsimp only at h
    rw [if_pos rfl] at h
    obtain ⟨v, hv, h⟩ := Option.bind_eq_some_iff.1 h
    have hnext := ih v (ht.underscore hv) h
    rwa [List.append_assoc] at hnext
  | case4 acc c s hc ih =>
    rw [readDigits.eq_def] at h
    dsimp only at h
    rw [if_neg hc] at h
    obtain ⟨v, hv, h⟩ := Option.bind_eq_some_iff.1 h
    have hnext := ih v (ht.next hv) h
    rwa [List.append_assoc] at hnext

/-- A number without its sign is digits, of no more than are read. -/
theorem readNumber_eq_some_iff {s : List Char} {n : ℕ} :
    readNumber s = some n ↔ Digits s n ∧ s.countP (· ≠ '_') ≤ maxDigits := by
  unfold readNumber
  constructor
  · intro h
    split_ifs at h with hbad
    rw [not_or, not_or, not_lt] at hbad
    obtain ⟨hhead, hne, hcount⟩ := hbad
    refine ⟨?_, hcount⟩
    cases s with
    | nil => exact absurd rfl hne
    | cons c s =>
      have hc : c ≠ '_' := fun heq => hhead (heq ▸ rfl)
      rw [readDigits.eq_def] at h
      dsimp only at h
      rw [if_neg hc] at h
      obtain ⟨v, hv, h⟩ := Option.bind_eq_some_iff.1 h
      rw [Nat.mul_zero, Nat.zero_add] at h
      exact (Digits.digit hv).of_readDigits h
  · rintro ⟨hs, hcount⟩
    have hhead : s.head? ≠ some '_' := by
      intro heq
      obtain ⟨v, hv⟩ := hs.head_digit _ heq
      exact (digitValue_ne hv).2.1 rfl
    rw [if_neg (by rw [not_or, not_or, not_lt]; exact ⟨hhead, hs.ne_nil, hcount⟩)]
    have hread := hs.readDigits_append []
    rwa [List.append_nil] at hread

/-- A number's ends are not skipped. -/
theorem Signed.ends {s : List Char} {n : ℤ} (h : Signed s n) :
    (∀ c ∈ s.head?, skips c = false) ∧ ∀ c ∈ s.getLast?, skips c = false := by
  have hdigit : ∀ c : Char, (∃ v, digitValue c = some v) → skips c = false := fun c ⟨_, hv⟩ => (digitValue_ne hv).1
  have hlast : ∀ {t : List Char} {m : ℕ} (sign : Char), Digits t m → (sign :: t).getLast? = t.getLast? := by
    intro t m sign ht
    exact List.getLast?_cons_of_ne_nil ht.ne_nil
  cases h with
  | plain hs _ => exact ⟨fun c hc => hdigit c (hs.head_digit c hc), fun c hc => hdigit c (hs.last_digit c hc)⟩
  | plus hs _ | minus hs _ =>
    refine ⟨fun c hc => ?_, fun c hc => hdigit c (hs.last_digit c (hlast _ hs ▸ hc))⟩
    obtain rfl := Option.some.inj hc
    decide

/-- A number with its sign is one of the grammar. -/
theorem readSigned_eq_some_iff {s : List Char} {n : ℤ} : readSigned s = some n ↔ Signed s n := by
  constructor
  · intro h
    unfold readSigned at h
    split at h
    · obtain ⟨m, hm, rfl⟩ := Option.map_eq_some_iff.1 h
      obtain ⟨hs, hcount⟩ := readNumber_eq_some_iff.1 hm
      exact .minus hs hcount
    · obtain ⟨m, hm, rfl⟩ := Option.map_eq_some_iff.1 h
      obtain ⟨hs, hcount⟩ := readNumber_eq_some_iff.1 hm
      exact .plus hs hcount
    · obtain ⟨m, hm, rfl⟩ := Option.map_eq_some_iff.1 h
      obtain ⟨hs, hcount⟩ := readNumber_eq_some_iff.1 hm
      exact .plain hs hcount
  · intro h
    cases h with
    | plus hs hcount | minus hs hcount =>
      rw [readSigned, readNumber_eq_some_iff.2 ⟨hs, hcount⟩]
      rfl
    | plain hs hcount =>
      unfold readSigned
      split
      · obtain ⟨v, hv⟩ := hs.head_digit _ rfl
        exact absurd rfl (digitValue_ne hv).2.2.1
      · obtain ⟨v, hv⟩ := hs.head_digit _ rfl
        exact absurd rfl (digitValue_ne hv).2.2.2.1
      · rw [readNumber_eq_some_iff.2 ⟨hs, hcount⟩]
        rfl

/-- **`int` reads the texts of the grammar, and gives their number.** -/
theorem readInt_eq_some_iff {text : List Char} {n : ℤ} : readInt text = some n ↔ Numeral text n := by
  rw [readInt, readSigned_eq_some_iff]
  constructor
  · intro h
    obtain ⟨l, r, htext, hl, hr⟩ := exists_append_trim skips text
    exact ⟨l, _, r, htext, hl, hr, h⟩
  · rintro ⟨l, s, r, rfl, hl, hr, hs⟩
    rwa [trim_append hl hr hs.ends.1 hs.ends.2]

/-- No number has a colon in it. -/
theorem Numeral.colon_notMem {text : List Char} {n : ℤ} (h : Numeral text n) : ':' ∉ text := by
  obtain ⟨l, s, r, rfl, hl, hr, hs⟩ := h
  have hskip : skips ':' = false := by decide
  have hdigits : ∀ {t : List Char} {m : ℕ}, Digits t m → ':' ∉ t := by
    intro t m ht
    induction ht with
    | digit hv => simpa using fun heq => (digitValue_ne hv).2.2.2.2 heq.symm
    | next _ hv ih => simpa [ih] using fun heq => (digitValue_ne hv).2.2.2.2 heq.symm
    | underscore _ hv ih => simpa [ih] using fun heq => (digitValue_ne hv).2.2.2.2 heq.symm
  have hmid : ':' ∉ s := by
    cases hs with
    | plain ht _ => exact hdigits ht
    | plus ht _ | minus ht _ => simpa using hdigits ht
  simp only [List.mem_append, not_or]
  refine ⟨⟨fun hmem => ?_, hmid⟩, fun hmem => ?_⟩
  · exact Bool.false_ne_true (hskip.symm.trans (hl _ hmem))
  · exact Bool.false_ne_true (hskip.symm.trans (hr _ hmem))

end MediaPreview.Text
