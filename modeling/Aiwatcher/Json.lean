import Aiwatcher.Core
import Aiwatcher.Library.Text
import Mathlib.Tactic.IntervalCases

/-!
# Aiwatcher.Json

The text `serde_json` writes a value as.  Only the digits of a double are a parameter
(`Doubles`); the rest is the writer's own.

`write_inj` reads the value back: two values with one text are one value.
-/

namespace Aiwatcher

open Library List

/-! ## Writing -/

/-- The digits a double is written with, by its bits. -/
abbrev Doubles := UInt64 → List Char

/-- A hexadecimal digit, in lower case. -/
def hexDigit (n : Nat) : Char :=
  if n < 10 then Char.ofNat ('0'.toNat + n) else Char.ofNat ('a'.toNat + (n - 10))

/-- One character of a string, escaped where it has to be. -/
def escape (c : Char) : List Char :=
  if c = '"' then ['\\', '"']
  else if c = '\\' then ['\\', '\\']
  else if c.toNat = 8 then ['\\', 'b']
  else if c.toNat = 9 then ['\\', 't']
  else if c.toNat = 10 then ['\\', 'n']
  else if c.toNat = 12 then ['\\', 'f']
  else if c.toNat = 13 then ['\\', 'r']
  else if c.toNat < 32 then
    ['\\', 'u', '0', '0', hexDigit (c.toNat / 16), hexDigit (c.toNat % 16)]
  else [c]

def writeString (s : String) : List Char := '"' :: (s.toList.flatMap escape ++ ['"'])

/-- A number; one that is not negative is no `negInt`. -/
def writeNumber (doubles : Doubles) : Number → List Char
  | .posInt n => n.toNat.repr.toList
  | .negInt n =>
    if n.toInt < 0 then '-' :: n.toInt.natAbs.repr.toList
    else '-' :: '-' :: n.toInt.natAbs.repr.toList
  | .float bits => doubles bits

mutual

/-- A value without spaces, an object's entries in the order they are held. -/
def Value.write (doubles : Doubles) : Value → List Char
  | .null => ['n', 'u', 'l', 'l']
  | .bool true => ['t', 'r', 'u', 'e']
  | .bool false => ['f', 'a', 'l', 's', 'e']
  | .number n => writeNumber doubles n
  | .string s => writeString s
  | .array items => '[' :: Value.writeItems doubles true items
  | .object entries => '\x7b' :: Value.writeEntries doubles true entries

/-- The items behind an opening bracket, the first one without a comma. -/
def Value.writeItems (doubles : Doubles) : Bool → List Value → List Char
  | _, [] => [']']
  | true, v :: vs => Value.write doubles v ++ Value.writeItems doubles false vs
  | false, v :: vs => ',' :: (Value.write doubles v ++ Value.writeItems doubles false vs)

def Value.writeEntries (doubles : Doubles) : Bool → List (String × Value) → List Char
  | _, [] => ['\x7d']
  | true, (key, v) :: rest =>
    writeString key ++ ':' :: (Value.write doubles v ++ Value.writeEntries doubles false rest)
  | false, (key, v) :: rest =>
    ',' :: (writeString key ++
      ':' :: (Value.write doubles v ++ Value.writeEntries doubles false rest))

end

/-! ## Strings -/

def hexValue (c : Char) : Nat :=
  if c.isDigit then c.toNat - '0'.toNat else c.toNat - 'a'.toNat + 10

/-- The first character of what is between quotes. -/
def unescape : List Char → Option (Char × List Char)
  | '\\' :: '"' :: rest => some ('"', rest)
  | '\\' :: '\\' :: rest => some ('\\', rest)
  | '\\' :: 'b' :: rest => some (Char.ofNat 8, rest)
  | '\\' :: 't' :: rest => some (Char.ofNat 9, rest)
  | '\\' :: 'n' :: rest => some (Char.ofNat 10, rest)
  | '\\' :: 'f' :: rest => some (Char.ofNat 12, rest)
  | '\\' :: 'r' :: rest => some (Char.ofNat 13, rest)
  | '\\' :: 'u' :: '0' :: '0' :: a :: b :: rest =>
    some (Char.ofNat (16 * hexValue a + hexValue b), rest)
  | '"' :: _ => none
  | c :: rest => some (c, rest)
  | [] => none

theorem unescape_control : ∀ n < 32, ∀ rest : List Char,
    unescape (escape (Char.ofNat n) ++ rest) = some (Char.ofNat n, rest) := by
  intro n hn rest
  interval_cases n <;> rfl

theorem unescape_escape (c : Char) (rest : List Char) :
    unescape (escape c ++ rest) = some (c, rest) := by
  by_cases hcontrol : c.toNat < 32
  · have hc := unescape_control c.toNat hcontrol rest
    rwa [Char.ofNat_toNat] at hc
  · unfold escape
    split
    · subst_vars; rfl
    · split
      · subst_vars; rfl
      · rename_i hquote hslash
        rw [if_neg (by omega), if_neg (by omega), if_neg (by omega), if_neg (by omega),
          if_neg (by omega)]
        simp only [List.singleton_append]
        unfold unescape
        split <;> simp_all

theorem flatMap_escape_inj {s t r r' : List Char}
    (h : s.flatMap escape ++ '"' :: r = t.flatMap escape ++ '"' :: r') : s = t ∧ r = r' := by
  induction s generalizing t with
  | nil =>
    cases t with
    | nil => simpa using h
    | cons c t =>
      have hread := congrArg unescape h
      rw [List.flatMap_cons, List.append_assoc, unescape_escape] at hread
      simp [unescape] at hread
  | cons c s ih =>
    cases t with
    | nil =>
      have hread := congrArg unescape h
      rw [List.flatMap_cons, List.append_assoc, unescape_escape] at hread
      simp [unescape] at hread
    | cons c' t =>
      have hread := congrArg unescape h
      rw [List.flatMap_cons, List.append_assoc, unescape_escape, List.flatMap_cons,
        List.append_assoc, unescape_escape] at hread
      simp only [Option.some.injEq, Prod.mk.injEq] at hread
      obtain ⟨hs, hr⟩ := ih hread.2
      exact ⟨by rw [hread.1, hs], hr⟩

variable {c : Char} {r r' : List Char}

theorem writeString_inj {s t : String} (h : writeString s ++ r = writeString t ++ r') :
    s = t ∧ r = r' := by
  simp only [writeString, List.cons_append, List.append_assoc, List.cons.injEq, true_and,
    List.nil_append] at h
  obtain ⟨hs, hr⟩ := flatMap_escape_inj h
  exact ⟨String.toList_inj.mp hs, hr⟩

/-! ## Numbers -/

/-- The characters a number is written with. -/
def isNumeric (c : Char) : Bool := c.isDigit || c == '-' || c == '+' || c == '.' || c == 'e'

/-- What the digits of a double are like: different doubles are written differently, with a
point or an exponent, which no integer has. -/
structure Doubles.Lawful (doubles : Doubles) : Prop where
  injective : Function.Injective doubles
  numeric : ∀ bits, (doubles bits).all isNumeric = true
  lead : ∀ bits, ∃ c rest, doubles bits = c :: rest ∧ (c.isDigit = true ∨ c = '-')
  fraction : ∀ bits, '.' ∈ doubles bits ∨ 'e' ∈ doubles bits

theorem isDigit_of_mem_repr {n : Nat} (h : c ∈ n.repr.toList) : c.isDigit = true := by
  by_contra hc
  exact Text.notMem_repr (by simpa using hc) h

theorem repr_toList_inj {m n : Nat} (h : m.repr.toList = n.repr.toList) : m = n :=
  Text.repr_inj (String.toList_inj.mp h)

/-- A decimal number begins with a digit. -/
theorem exists_lead_repr (n : Nat) : ∃ c rest, n.repr.toList = c :: rest ∧ c.isDigit = true := by
  cases h : n.repr.toList with
  | nil =>
    rw [Nat.toList_repr] at h
    exact absurd h (Nat.toDigits_ne_nil)
  | cons c rest => exact ⟨c, rest, rfl, isDigit_of_mem_repr (h ▸ List.mem_cons_self)⟩

variable {doubles : Doubles}

theorem writeNumber_lead (h : doubles.Lawful) (n : Number) :
    ∃ c rest, writeNumber doubles n = c :: rest ∧ (c.isDigit = true ∨ c = '-') := by
  cases n with
  | posInt n =>
    obtain ⟨c, rest, hlead, hdigit⟩ := exists_lead_repr n.toNat
    exact ⟨c, rest, hlead, .inl hdigit⟩
  | negInt n =>
    simp only [writeNumber]
    split
    · exact ⟨'-', _, rfl, .inr rfl⟩
    · exact ⟨'-', _, rfl, .inr rfl⟩
  | float bits => exact h.lead bits

theorem writeNumber_numeric (h : doubles.Lawful) (n : Number) :
    ∀ c ∈ writeNumber doubles n, isNumeric c = true := by
  intro c hc
  have hrepr : ∀ m : Nat, c ∈ m.repr.toList → isNumeric c = true := fun m hm => by
    simp [isNumeric, isDigit_of_mem_repr hm]
  cases n with
  | posInt n => exact hrepr _ hc
  | negInt n =>
    simp only [writeNumber] at hc
    split at hc
    · simp only [List.mem_cons] at hc
      cases hc with
      | inl hc => subst hc; rfl
      | inr hc => exact hrepr _ hc
    · simp only [List.mem_cons] at hc
      rcases hc with hc | hc | hc
      · subst hc; rfl
      · subst hc; rfl
      · exact hrepr _ hc
  | float bits => exact all_eq_true.mp (h.numeric bits) c hc

/-- An integer has neither a point nor an exponent. -/
theorem writeNumber_integer (doubles : Doubles) {n : Number} (hn : ∀ bits, n ≠ .float bits)
    (hc : c ∈ writeNumber doubles n) : c.isDigit = true ∨ c = '-' := by
  cases n with
  | posInt n => exact .inl (isDigit_of_mem_repr hc)
  | negInt n =>
    simp only [writeNumber] at hc
    split at hc
    · cases mem_cons.mp hc with
      | inl hc => exact .inr hc
      | inr hc => exact .inl (isDigit_of_mem_repr hc)
    · rw [List.mem_cons, List.mem_cons] at hc
      rcases hc with hc | hc | hc
      · exact .inr hc
      · exact .inr hc
      · exact .inl (isDigit_of_mem_repr hc)
  | float bits => exact absurd rfl (hn bits)

theorem writeNumber_ne_double (h : doubles.Lawful) (bits : UInt64) {n : Number}
    (hn : ∀ bits, n ≠ .float bits) : doubles bits ≠ writeNumber doubles n := by
  intro heq
  have hmem := h.fraction bits
  rw [heq] at hmem
  cases hmem with
  | inl hmem => exact absurd (writeNumber_integer doubles hn hmem) (by decide)
  | inr hmem => exact absurd (writeNumber_integer doubles hn hmem) (by decide)

theorem repr_ne_sign (n : Nat) (rest : List Char) : n.repr.toList ≠ '-' :: rest := by
  intro heq
  exact absurd (isDigit_of_mem_repr (heq ▸ List.mem_cons_self)) (by decide)

theorem writeNegative_inj {m n : Int64}
    (h : writeNumber doubles (.negInt m) = writeNumber doubles (.negInt n)) : m = n := by
  simp only [writeNumber] at h
  split at h <;> split at h <;> simp only [List.cons.injEq, true_and] at h
  · have habs := repr_toList_inj h
    exact Int64.toInt_inj.mp (by omega)
  · exact absurd h (repr_ne_sign _ _)
  · exact absurd h.symm (repr_ne_sign _ _)
  · have habs := repr_toList_inj h
    exact Int64.toInt_inj.mp (by omega)

theorem writeNumber_inj (h : doubles.Lawful) {m n : Number}
    (hmn : writeNumber doubles m = writeNumber doubles n) : m = n := by
  have hsign : ∀ (a : UInt64) (b : Int64),
      writeNumber doubles (.posInt a) ≠ writeNumber doubles (.negInt b) := fun a b heq => by
    simp only [writeNumber] at heq
    split at heq
    · exact repr_ne_sign _ _ heq
    · exact repr_ne_sign _ _ heq
  cases m with
  | posInt a =>
    cases n with
    | posInt b => exact congrArg _ (UInt64.toNat_inj.mp (repr_toList_inj hmn))
    | negInt b => exact absurd hmn (hsign a b)
    | float bits => exact absurd hmn.symm (writeNumber_ne_double h bits fun _ => by simp)
  | negInt a =>
    cases n with
    | posInt b => exact absurd hmn.symm (hsign b a)
    | negInt b => exact congrArg _ (writeNegative_inj hmn)
    | float bits => exact absurd hmn.symm (writeNumber_ne_double h bits fun _ => by simp)
  | float bits =>
    cases n with
    | posInt b => exact absurd hmn (writeNumber_ne_double h bits fun _ => by simp)
    | negInt b => exact absurd hmn (writeNumber_ne_double h bits fun _ => by simp)
    | float bits' => exact congrArg _ (h.injective hmn)

/-! ## Values -/

/-- What follows a value: nothing, or a character no number goes on with. -/
def Delimited (rest : List Char) : Prop := ∀ c, rest.head? = some c → isNumeric c = false

theorem writeNumber_append_inj (h : doubles.Lawful) {m n : Number} (hr : Delimited r)
    (hr' : Delimited r') (hmn : writeNumber doubles m ++ r = writeNumber doubles n ++ r') :
    m = n ∧ r = r' := by
  have hspan : ∀ (n : Number) (rest : List Char), Delimited rest →
      (writeNumber doubles n ++ rest).takeWhile isNumeric = writeNumber doubles n :=
    fun n rest hrest => by
      rw [List.takeWhile_append_of_pos (writeNumber_numeric h n)]
      cases rest with
      | nil => simp
      | cons c rest => simp [hrest c rfl]
  have hread := congrArg (List.takeWhile isNumeric) hmn
  rw [hspan m r hr, hspan n r' hr'] at hread
  rw [hread] at hmn
  exact ⟨writeNumber_inj h hread, List.append_cancel_left hmn⟩

/-- Which kind of value a text is of, by its first character. -/
def kindOf (c : Char) : Nat :=
  if c = 'n' then 0 else if c = 't' then 1 else if c = 'f' then 2 else if c = '"' then 3
  else if c = '[' then 4 else if c = '\x7b' then 5 else if c.isDigit || c == '-' then 6 else 7

def Value.kind : Value → Nat
  | .null => 0
  | .bool true => 1
  | .bool false => 2
  | .string _ => 3
  | .array _ => 4
  | .object _ => 5
  | .number _ => 6

theorem kindOf_number (h : c.isDigit = true ∨ c = '-') : kindOf c = 6 := by
  have hne : c ≠ 'n' ∧ c ≠ 't' ∧ c ≠ 'f' ∧ c ≠ '"' ∧ c ≠ '[' ∧ c ≠ '\x7b' := by
    refine ⟨?_, ?_, ?_, ?_, ?_, ?_⟩ <;> (rintro rfl; simp at h)
  simp [kindOf, hne, h]

theorem kind_write (h : doubles.Lawful) (v : Value) (rest : List Char) :
    ((v.write doubles ++ rest).head?.map kindOf) = some v.kind := by
  cases v with
  | null => rfl
  | bool b => cases b <;> rfl
  | number n =>
    obtain ⟨c, text, htext, hlead⟩ := writeNumber_lead h n
    simp [Value.write, htext, kindOf_number hlead, Value.kind]
  | string s => rfl
  | array items => simp [Value.write, kindOf, Value.kind]
  | object entries => simp [Value.write, kindOf, Value.kind]

theorem delimited_writeItems (doubles : Doubles) (items : List Value) (rest : List Char) :
    Delimited (Value.writeItems doubles false items ++ rest) := by
  intro c hc
  cases items with
  | nil => simp [Value.writeItems] at hc; subst hc; rfl
  | cons v vs => simp [Value.writeItems] at hc; subst hc; rfl

theorem delimited_writeEntries (doubles : Doubles) (entries : List (String × Value))
    (rest : List Char) : Delimited (Value.writeEntries doubles false entries ++ rest) := by
  intro c hc
  cases entries with
  | nil => simp [Value.writeEntries] at hc; subst hc; rfl
  | cons v vs => simp [Value.writeEntries] at hc; subst hc; rfl

theorem kind_eq (h : doubles.Lawful) {v w : Value}
    (hvw : v.write doubles ++ r = w.write doubles ++ r') : v.kind = w.kind := by
  have hkind := congrArg (fun text => text.head?.map kindOf) hvw
  simpa only [kind_write h, Option.some.injEq] using hkind

theorem kind_ne_bracket (h : doubles.Lawful) {v : Value} (hc : kindOf c = 7)
    (hv : c :: r = v.write doubles ++ r') : False := by
  have hkind := congrArg (fun text => text.head?.map kindOf) hv
  simp only [kind_write h, head?_cons, Option.map_some, hc, Option.some.injEq] at hkind
  unfold Value.kind at hkind
  split at hkind <;> cases hkind

mutual

variable {doubles : Doubles}

/-- **Reading back**: two values with one text, up to what follows, are one value. -/
theorem write_append_inj (h : doubles.Lawful) : ∀ (v w : Value)
    {r r' : List Char}, Delimited r → Delimited r' →
    v.write doubles ++ r = w.write doubles ++ r' → v = w ∧ r = r'
  | .null, w, r, r', hr, hr', hvw => by
      have hkind := kind_eq h hvw
      cases w with
      | null => simpa [Value.write] using hvw
      | bool b => cases b <;> cases hkind
      | number | string | array | object => cases hkind
  | .bool b, w, r, r', hr, hr', hvw => by
      have hkind := kind_eq h hvw
      cases w with
      | bool b' =>
        cases b with
        | true =>
          cases b' with
          | true => simpa [Value.write] using hvw
          | false => cases hkind
        | false =>
          cases b' with
          | true => cases hkind
          | false => simpa [Value.write] using hvw
      | null | number | string | array | object => cases b <;> cases hkind
  | .number m, w, r, r', hr, hr', hvw => by
      have hkind := kind_eq h hvw
      cases w with
      | number n =>
        obtain ⟨hmn, hrest⟩ := writeNumber_append_inj h hr hr' hvw
        exact ⟨congrArg _ hmn, hrest⟩
      | bool b => cases b <;> cases hkind
      | null | string | array | object => cases hkind
  | .string s, w, r, r', hr, hr', hvw => by
      have hkind := kind_eq h hvw
      cases w with
      | string t =>
        obtain ⟨hst, hrest⟩ := writeString_inj hvw
        exact ⟨congrArg _ hst, hrest⟩
      | bool b => cases b <;> cases hkind
      | null | number | array | object => cases hkind
  | .array items, w, r, r', hr, hr', hvw => by
      have hkind := kind_eq h hvw
      cases w with
      | array items' =>
        simp only [Value.write, cons_append, List.cons.injEq, true_and] at hvw
        obtain ⟨hitems, hrest⟩ := writeItems_append_inj h true items items' hvw
        exact ⟨congrArg _ hitems, hrest⟩
      | bool b => cases b <;> cases hkind
      | null | number | string | object => cases hkind
  | .object entries, w, r, r', hr, hr', hvw => by
      have hkind := kind_eq h hvw
      cases w with
      | object entries' =>
        simp only [Value.write, cons_append, List.cons.injEq, true_and] at hvw
        obtain ⟨hentries, hrest⟩ := writeEntries_append_inj h true entries entries' hvw
        exact ⟨congrArg _ hentries, hrest⟩
      | bool b => cases b <;> cases hkind
      | null | number | string | array => cases hkind

theorem writeItems_append_inj (h : doubles.Lawful) : ∀ (first : Bool)
    (vs ws : List Value) {r r' : List Char},
    Value.writeItems doubles first vs ++ r = Value.writeItems doubles first ws ++ r' →
      vs = ws ∧ r = r'
  | first, [], ws, r, r', hvw => by
      cases ws with
      | nil => cases first <;> simpa [Value.writeItems] using hvw
      | cons w ws =>
        cases first with
        | true =>
          simp only [Value.writeItems, append_assoc, singleton_append] at hvw
          exact (kind_ne_bracket h (by decide) hvw).elim
        | false => simp [Value.writeItems] at hvw
  | first, v :: vs, ws, r, r', hvw => by
      cases ws with
      | nil =>
        cases first with
        | true =>
          simp only [Value.writeItems, append_assoc, singleton_append] at hvw
          exact (kind_ne_bracket h (by decide) hvw.symm).elim
        | false => simp [Value.writeItems] at hvw
      | cons w ws =>
        have hitems : v.write doubles ++ (Value.writeItems doubles false vs ++ r) =
            w.write doubles ++ (Value.writeItems doubles false ws ++ r') := by
          cases first <;> simpa [Value.writeItems] using hvw
        obtain ⟨hhead, htail⟩ := write_append_inj h v w (delimited_writeItems doubles vs r)
          (delimited_writeItems doubles ws r') hitems
        obtain ⟨hrest, hr⟩ := writeItems_append_inj h false vs ws htail
        exact ⟨by rw [hhead, hrest], hr⟩

theorem writeEntries_append_inj (h : doubles.Lawful) : ∀ (first : Bool)
    (vs ws : List (String × Value)) {r r' : List Char},
    Value.writeEntries doubles first vs ++ r = Value.writeEntries doubles first ws ++ r' →
      vs = ws ∧ r = r'
  | first, [], ws, r, r', hvw => by
      cases ws with
      | nil => cases first <;> simpa [Value.writeEntries] using hvw
      | cons w ws =>
        cases first <;> simp [Value.writeEntries, writeString] at hvw
  | first, (key, v) :: vs, ws, r, r', hvw => by
      cases ws with
      | nil => cases first <;> simp [Value.writeEntries, writeString] at hvw
      | cons w ws =>
        obtain ⟨key', w⟩ := w
        have hentries : writeString key ++
              (':' :: (v.write doubles ++ (Value.writeEntries doubles false vs ++ r))) =
            writeString key' ++
              (':' :: (w.write doubles ++ (Value.writeEntries doubles false ws ++ r'))) := by
          cases first <;> simpa [Value.writeEntries] using hvw
        obtain ⟨hkey, hvalues⟩ := writeString_inj hentries
        obtain ⟨hhead, htail⟩ := write_append_inj h v w (delimited_writeEntries doubles vs r)
          (delimited_writeEntries doubles ws r') (List.cons.inj hvalues).2
        obtain ⟨hrest, hr⟩ := writeEntries_append_inj h false vs ws htail
        exact ⟨by rw [hkey, hhead, hrest], hr⟩

end

theorem write_inj (h : doubles.Lawful) {v w : Value} (hvw : v.write doubles = w.write doubles) :
    v = w := by
  have hdelimited : Delimited [] := fun c hc => by cases hc
  exact (write_append_inj h v w hdelimited hdelimited (by rw [hvw])).1

end Aiwatcher
