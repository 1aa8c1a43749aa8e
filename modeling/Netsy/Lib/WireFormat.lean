import Mathlib.Algebra.Group.Int.Defs
import Mathlib.Algebra.Group.Nat.Defs
import Mathlib.Data.Int.Order.Basic
import Mathlib.Data.List.Basic
import Mathlib.Order.Nat
import Mathlib.Tactic.Common

/-! # The wire format of protocol buffers

A message is a list of numbered fields. A field holds a number, written in base 128 with the least
significant digit first and the high bit set on all bytes but the last, or a string of bytes with
its length before it. A field that has its default value is left out, and of several fields with
one number the last one counts. A stream of messages has the length of each one before it.

There are more types of fields than these two: 8 bytes, 4 bytes, and groups of fields between two
tags. No message here has one, but every reader has to pass over them. The bytes of a field that a
message does not know are kept and go behind its own fields when it is written again. -/

namespace Netsy.Lib.WireFormat

/-! ### Numbers -/

def varint (n : ℕ) : List UInt8 :=
  if n < 128 then [n.toUInt8] else (n % 128 + 128).toUInt8 :: varint (n / 128)
termination_by n
decreasing_by omega

/-- Reads a number of at most so many bytes. -/
def readVarintWithin : ℕ → List UInt8 → Option (ℕ × List UInt8)
  | 0, _ => none
  | _ + 1, [] => none
  | k + 1, b :: bs =>
    if b.toNat < 128 then some (b.toNat, bs)
    else (readVarintWithin k bs).map fun (n, rest) => (b.toNat - 128 + 128 * n, rest)

/-- Reads a number of 64 bits. -/
def readVarint (bs : List UInt8) : Option (ℕ × List UInt8) :=
  (readVarintWithin 10 bs).filter fun (n, _) => n < 2 ^ 64

variable {n k : ℕ} {rest m : List UInt8}

theorem varint_of_lt (h : n < 128) : varint n = [n.toUInt8] := by
  rw [varint, if_pos h]

theorem varint_of_le (h : 128 ≤ n) :
    varint n = (n % 128 + 128).toUInt8 :: varint (n / 128) := by
  rw [varint, if_neg (by omega)]

theorem varint_ne_nil : varint n ≠ [] := by
  rw [varint]
  split_ifs <;> simp

theorem toNat_digit (h : n < 256) : n.toUInt8.toNat = n := by
  simp [Nat.mod_eq_of_lt h]

theorem readVarintWithin_varint (h : n < 128 ^ (k + 1)) :
    readVarintWithin (k + 1) (varint n ++ rest) = some (n, rest) := by
  induction k generalizing n with
  | zero =>
    have hlt : n < 128 := by simpa using h
    rw [varint_of_lt hlt, List.singleton_append, readVarintWithin, toNat_digit (by omega),
      if_pos hlt]
  | succ k ih =>
    by_cases hlt : n < 128
    · rw [varint_of_lt hlt, List.singleton_append, readVarintWithin, toNat_digit (by omega),
        if_pos hlt]
    · have hdiv : n / 128 < 128 ^ (k + 1) := by
        rw [Nat.div_lt_iff_lt_mul (by decide)]
        exact h
      have hdigit : (n % 128 + 128).toUInt8.toNat = n % 128 + 128 := toNat_digit (by omega)
      have hsum : n % 128 + 128 - 128 + 128 * (n / 128) = n := by omega
      rw [varint_of_le (not_lt.mp hlt), List.cons_append, readVarintWithin, hdigit,
        if_neg (by omega), ih hdiv, Option.map_some]
      simp only [hsum]

theorem readVarint_varint (h : n < 2 ^ 64) : readVarint (varint n ++ rest) = some (n, rest) := by
  have hlt : n < 128 ^ (9 + 1) := h.trans (by decide)
  rw [readVarint, readVarintWithin_varint hlt]
  exact Option.filter_some_pos (p := fun x : ℕ × List UInt8 => decide (x.1 < 2 ^ 64))
    (decide_eq_true h)

theorem readVarintWithin_append {bs q : List UInt8} (h : readVarintWithin k bs = some (n, rest)) :
    readVarintWithin k (bs ++ q) = some (n, rest ++ q) := by
  induction k generalizing bs n with
  | zero => cases h
  | succ k ih =>
    cases bs with
    | nil => cases h
    | cons b bs =>
      rw [List.cons_append, readVarintWithin]
      rw [readVarintWithin] at h
      split_ifs at h ⊢
      · cases h
        rfl
      · obtain ⟨⟨n', rest'⟩, hread, heq⟩ := Option.map_eq_some_iff.mp h
        cases heq
        rw [ih hread, Option.map_some]

theorem readVarint_append {bs q : List UInt8} (h : readVarint bs = some (n, rest)) :
    readVarint (bs ++ q) = some (n, rest ++ q) := by
  obtain ⟨hread, hlt⟩ := Option.filter_eq_some_iff.mp h
  exact Option.filter_eq_some_iff.mpr ⟨readVarintWithin_append hread, hlt⟩

theorem length_lt_of_readVarintWithin {bs : List UInt8}
    (h : readVarintWithin k bs = some (n, rest)) : rest.length < bs.length := by
  induction k generalizing bs n with
  | zero => cases h
  | succ k ih =>
    cases bs with
    | nil => cases h
    | cons b bs =>
      rw [readVarintWithin] at h
      split_ifs at h
      · cases h
        exact Nat.lt_succ_self _
      · obtain ⟨⟨n', rest'⟩, hread, heq⟩ := Option.map_eq_some_iff.mp h
        cases heq
        exact Nat.lt_succ_of_lt (ih hread)

theorem length_varint_le (h : n < 128 ^ (k + 1)) : (varint n).length ≤ k + 1 := by
  induction k generalizing n with
  | zero =>
    have hlt : n < 128 := by simpa using h
    simp [varint_of_lt hlt]
  | succ k ih =>
    by_cases hlt : n < 128
    · simp [varint_of_lt hlt]
    · have hdiv : n / 128 < 128 ^ (k + 1) := by
        rw [Nat.div_lt_iff_lt_mul (by decide)]
        exact h
      rw [varint_of_le (not_lt.mp hlt), List.length_cons]
      exact Nat.succ_le_succ (ih hdiv)

theorem length_varint_le_ten (h : n < 2 ^ 64) : (varint n).length ≤ 10 :=
  length_varint_le (h.trans (by decide))

theorem le_length_varint (h : 128 ^ k ≤ n) : k + 1 ≤ (varint n).length := by
  induction k generalizing n with
  | zero => exact List.length_pos_iff.mpr varint_ne_nil
  | succ k ih =>
    have hge : 128 ≤ n := le_trans (Nat.le_self_pow k.succ_ne_zero 128) h
    have hdiv : 128 ^ k ≤ n / 128 := (Nat.le_div_iff_mul_le (by decide)).mpr h
    rw [varint_of_le hge, List.length_cons]
    exact Nat.succ_le_succ (ih hdiv)

/-! ### Signed numbers of 64 bits -/

def ofInt (x : ℤ) : ℕ := (x % 2 ^ 64).toNat

def toInt (n : ℕ) : ℤ := if n < 2 ^ 63 then n else n - 2 ^ 64

def IsInt64 (x : ℤ) : Prop := -2 ^ 63 ≤ x ∧ x < 2 ^ 63

instance (x : ℤ) : Decidable (IsInt64 x) := inferInstanceAs (Decidable (_ ∧ _))

variable {x : ℤ}

theorem ofInt_lt : ofInt x < 2 ^ 64 := by
  unfold ofInt
  omega

theorem toInt_ofInt (h : IsInt64 x) : toInt (ofInt x) = x := by
  obtain ⟨hlo, hhi⟩ := h
  unfold toInt ofInt
  split_ifs <;> omega

theorem isInt64_zero : IsInt64 0 := by decide

/-! ### Signed numbers of 32 bits

They are written as numbers of 64 bits, and a larger number is cut when it is read. -/

def toInt32 (n : ℕ) : ℤ := if n % 2 ^ 32 < 2 ^ 31 then n % 2 ^ 32 else n % 2 ^ 32 - 2 ^ 32

def IsInt32 (x : ℤ) : Prop := -2 ^ 31 ≤ x ∧ x < 2 ^ 31

instance (x : ℤ) : Decidable (IsInt32 x) := inferInstanceAs (Decidable (_ ∧ _))

theorem toInt32_ofInt (h : IsInt32 x) : toInt32 (ofInt x) = x := by
  obtain ⟨hlo, hhi⟩ := h
  unfold toInt32 ofInt
  split_ifs <;> omega

/-! ### Fields -/

inductive Value
  | varint (n : ℕ)
  | bytes (b : List UInt8)
deriving DecidableEq, Repr

structure Field where
  number : ℕ
  value : Value
deriving DecidableEq, Repr

def Value.wireType : Value → ℕ
  | .varint _ => 0
  | .bytes _ => 2

def Value.encode : Value → List UInt8
  | .varint n => WireFormat.varint n
  | .bytes b => WireFormat.varint b.length ++ b

def Field.encode (f : Field) : List UInt8 :=
  varint (8 * f.number + f.value.wireType) ++ f.value.encode

def encode (fs : List Field) : List UInt8 := fs.flatMap Field.encode

/-- A field as it is read, with the bytes of its value; there is no `value` for a type of which the
bytes are only passed over. -/
structure RawField where
  number : ℕ
  wireType : ℕ
  value : Option Value
  bytes : List UInt8
deriving DecidableEq, Repr

/-- The field with a tag of the shortest length. -/
def RawField.encode (f : RawField) : List UInt8 := varint (8 * f.number + f.wireType) ++ f.bytes

/-- Reads a value that is not a group. -/
def readScalar (wireType : ℕ) (bs : List UInt8) : Option (Option Value × List UInt8) :=
  match wireType with
  | 0 => (readVarint bs).map fun (n, rest) => (some (.varint n), rest)
  | 1 => if 8 ≤ bs.length then some (none, bs.drop 8) else none
  | 2 =>
    (readVarint bs).bind fun (length, rest) =>
      if length ≤ rest.length then some (some (.bytes (rest.take length)), rest.drop length)
      else none
  | 5 => if 4 ≤ bs.length then some (none, bs.drop 4) else none
  | _ => none

/-- So many groups may be open at one time. -/
def maxGroups : ℕ := 10001

/-- Passes over the rest of the open groups, the innermost one first, of at most so many fields;
each takes a byte at least. In a group the numbers of the fields have two more bits. -/
def skipGroups : ℕ → List ℕ → List UInt8 → Option (List UInt8)
  | _, [], bs => some bs
  | 0, _ :: _, _ => none
  | k + 1, number :: outer, bs =>
    (readVarint bs).bind fun (tag, bs) =>
      if tag / 8 = 0 ∨ 2 ^ 31 ≤ tag / 8 then none
      else if tag % 8 = 4 then
        if tag / 8 = number then skipGroups k outer bs else none
      else if tag % 8 = 3 then
        if outer.length + 1 < maxGroups then skipGroups k (tag / 8 :: number :: outer) bs else none
      else (readScalar (tag % 8) bs).bind fun (_, rest) => skipGroups k (number :: outer) rest

/-- Reads the value behind a tag; a group ends with a tag of its own number. -/
def readValue (number wireType : ℕ) (bs : List UInt8) : Option (Option Value × List UInt8) :=
  if wireType = 3 then (skipGroups bs.length [number] bs).map fun rest => (none, rest)
  else readScalar wireType bs

def readField (bs : List UInt8) : Option (RawField × List UInt8) :=
  (readVarint bs).bind fun (tag, bs) =>
    if tag / 8 = 0 ∨ 2 ^ 29 ≤ tag / 8 then none
    else
      (readValue (tag / 8) (tag % 8) bs).map fun (value, rest) =>
        (⟨tag / 8, tag % 8, value, bs.take (bs.length - rest.length)⟩, rest)

/-- Reads at most so many fields. -/
def decodeWithin : ℕ → List UInt8 → Option (List RawField)
  | _, [] => some []
  | 0, _ :: _ => none
  | k + 1, b :: bs =>
    (readField (b :: bs)).bind fun (f, rest) => (decodeWithin k rest).map (f :: ·)

/-- A field takes a byte at least. -/
def decode (bs : List UInt8) : Option (List RawField) := decodeWithin bs.length bs

/-- The sizes fit into 64 bits. -/
def Value.Fits : Value → Prop
  | .varint n => n < 2 ^ 64
  | .bytes b => b.length < 2 ^ 64

/-- The number of the field is one that the format allows. -/
def Field.Fits (f : Field) : Prop := 0 < f.number ∧ f.number < 2 ^ 29 ∧ f.value.Fits

/-- A field that was written, as it is read. -/
def Field.raw (f : Field) : RawField := ⟨f.number, f.value.wireType, some f.value, f.value.encode⟩

variable {f : Field} {fs fs' : List Field}

/-! ### The rounds are enough -/

theorem length_lt_of_readVarint {bs : List UInt8} (h : readVarint bs = some (n, rest)) :
    rest.length < bs.length :=
  length_lt_of_readVarintWithin (Option.filter_eq_some_iff.mp h).1

theorem length_le_of_readScalar {wireType : ℕ} {bs : List UInt8} {v : Option Value}
    (h : readScalar wireType bs = some (v, rest)) : rest.length ≤ bs.length := by
  unfold readScalar at h
  split at h
  · obtain ⟨⟨n, after⟩, hread, heq⟩ := Option.map_eq_some_iff.mp h
    cases heq
    exact (length_lt_of_readVarint hread).le
  · split_ifs at h
    cases h
    exact List.drop_sublist 8 bs |>.length_le
  · obtain ⟨⟨length, after⟩, hread, heq⟩ := Option.bind_eq_some_iff.mp h
    dsimp only at heq
    split_ifs at heq
    cases heq
    exact (List.drop_sublist length after).length_le.trans (length_lt_of_readVarint hread).le
  · split_ifs at h
    cases h
    exact List.drop_sublist 4 bs |>.length_le
  · cases h

theorem length_le_of_skipGroups {numbers : List ℕ} {bs : List UInt8}
    (h : skipGroups k numbers bs = some rest) : rest.length ≤ bs.length := by
  induction k generalizing numbers bs with
  | zero =>
    cases numbers with
    | nil =>
      cases h
      exact le_rfl
    | cons number outer => cases h
  | succ k ih =>
    cases numbers with
    | nil =>
      cases h
      exact le_rfl
    | cons number outer =>
      unfold skipGroups at h
      obtain ⟨⟨tag, after⟩, hread, heq⟩ := Option.bind_eq_some_iff.mp h
      refine le_trans ?_ (length_lt_of_readVarint hread).le
      dsimp only at heq
      split_ifs at heq
      · exact ih heq
      · exact ih heq
      · obtain ⟨p, hscalar, hskip⟩ := Option.bind_eq_some_iff.mp heq
        exact (ih hskip).trans (length_le_of_readScalar hscalar)

theorem length_lt_of_readField {g : RawField} {bs : List UInt8}
    (h : readField bs = some (g, rest)) : rest.length < bs.length := by
  unfold readField at h
  obtain ⟨⟨tag, after⟩, hread, heq⟩ := Option.bind_eq_some_iff.mp h
  refine lt_of_le_of_lt ?_ (length_lt_of_readVarint hread)
  dsimp only at heq
  split_ifs at heq
  obtain ⟨⟨value, left⟩, hvalue, hpair⟩ := Option.map_eq_some_iff.mp heq
  cases hpair
  unfold readValue at hvalue
  split_ifs at hvalue
  · obtain ⟨left, hskip, hpair⟩ := Option.map_eq_some_iff.mp hvalue
    cases hpair
    exact length_le_of_skipGroups hskip
  · exact length_le_of_readScalar hvalue

theorem decodeWithin_of_le {k' : ℕ} {bs : List UInt8} (h : bs.length ≤ k) (h' : bs.length ≤ k') :
    decodeWithin k bs = decodeWithin k' bs := by
  induction k generalizing k' bs with
  | zero =>
    obtain rfl := List.length_eq_zero_iff.mp (Nat.le_zero.mp h)
    cases k' <;> rfl
  | succ k ih =>
    cases bs with
    | nil => cases k' <;> rfl
    | cons b bs =>
      cases k' with
      | zero => simp at h'
      | succ k' =>
        unfold decodeWithin
        cases hread : readField (b :: bs) with
        | none => rfl
        | some p =>
          have hlt := length_lt_of_readField hread
          have hrest : decodeWithin k p.2 = decodeWithin k' p.2 := ih (by omega) (by omega)
          simp only [Option.bind_some, hrest]

/-! ### Fields are read back -/

theorem readScalar_encode {v : Value} (h : v.Fits) :
    readScalar v.wireType (v.encode ++ rest) = some (some v, rest) := by
  cases v with
  | varint n =>
    simp only [readScalar, Value.wireType, Value.encode]
    rw [readVarint_varint h]
    rfl
  | bytes b =>
    simp only [readScalar, Value.wireType, Value.encode, List.append_assoc]
    rw [readVarint_varint h, Option.bind_some]
    simp

theorem wireType_le_two {v : Value} : v.wireType ≤ 2 := by
  cases v with
  | varint n => exact Nat.zero_le 2
  | bytes b => exact le_rfl

theorem readField_encode (h : f.Fits) : readField (f.encode ++ rest) = some (f.raw, rest) := by
  obtain ⟨number, value⟩ := f
  obtain ⟨hpos, hlt, hfits⟩ := h
  dsimp only at hpos hlt hfits
  have htype : value.wireType ≤ 2 := wireType_le_two
  have hnumber : (8 * number + value.wireType) / 8 = number := by omega
  have hwire : (8 * number + value.wireType) % 8 = value.wireType := by omega
  have htag : 8 * number + value.wireType < 2 ^ 64 := by omega
  have hvalid : ¬ (number = 0 ∨ 2 ^ 29 ≤ number) := by omega
  have hscalar : ¬ value.wireType = 3 := by omega
  unfold readField Field.encode
  rw [List.append_assoc, readVarint_varint htag, Option.bind_some]
  simp only [hnumber, hwire, if_neg hvalid, readValue, if_neg hscalar]
  rw [readScalar_encode hfits]
  simp [Field.raw]

theorem decode_of_readField {g : RawField} {bs : List UInt8} (h : readField bs = some (g, rest)) :
    decode bs = (decode rest).map (g :: ·) := by
  have hlt := length_lt_of_readField h
  cases bs with
  | nil => simp at hlt
  | cons b bs =>
    have hrest : decodeWithin bs.length rest = decode rest :=
      decodeWithin_of_le (Nat.le_of_lt_succ hlt) le_rfl
    rw [decode, List.length_cons, decodeWithin, h, Option.bind_some]
    exact congrArg (Option.map (g :: ·)) hrest

theorem decode_encode (hfits : ∀ f ∈ fs, f.Fits) :
    decode (encode fs) = some (fs.map Field.raw) := by
  induction fs with
  | nil => rfl
  | cons f fs ih =>
    have hcons : encode (f :: fs) = f.encode ++ encode fs := List.flatMap_cons
    rw [hcons, decode_of_readField (readField_encode (hfits f List.mem_cons_self)),
      ih fun g hg => hfits g (List.mem_cons_of_mem f hg), Option.map_some, List.map_cons]

/-! ### Fields that a message knows -/

/-- The fields with a value. -/
def known (rs : List RawField) : List Field :=
  rs.filterMap fun f => f.value.map fun v => ⟨f.number, v⟩

/-- The bytes of the fields that do not have a number and a type of the message. -/
def unknown (types : List (ℕ × ℕ)) (rs : List RawField) : List UInt8 :=
  (rs.filter fun f => (f.number, f.wireType) ∉ types).flatMap RawField.encode

@[simp] theorem known_raw : known (fs.map Field.raw) = fs := by
  unfold known
  rw [List.filterMap_map]
  exact List.filterMap_some

/-- The fields have numbers and types of the message. -/
def Typed (types : List (ℕ × ℕ)) (fs : List Field) : Prop :=
  ∀ f ∈ fs, (f.number, f.value.wireType) ∈ types

theorem unknown_raw {types : List (ℕ × ℕ)} (h : Typed types fs) :
    unknown types (fs.map Field.raw) = [] := by
  have hnone : (fs.map Field.raw).filter (fun f => (f.number, f.wireType) ∉ types) = [] := by
    rw [List.filter_eq_nil_iff]
    intro g hg
    obtain ⟨f, hf, rfl⟩ := List.mem_map.mp hg
    simp [Field.raw, h f hf]
  unfold unknown
  rw [hnone, List.flatMap_nil]

/-! ### Fields with defaults -/

/-- A number, left out if it is zero. -/
def uint (number n : ℕ) : List Field := if n = 0 then [] else [⟨number, .varint n⟩]

/-- A string of bytes, left out if it is empty. -/
def blob (number : ℕ) (b : List UInt8) : List Field := if b = [] then [] else [⟨number, .bytes b⟩]

/-- A message in a message. -/
def sub (number : ℕ) (o : Option (List UInt8)) : List Field :=
  o.toList.map fun b => ⟨number, .bytes b⟩

def varints (number : ℕ) (fs : List Field) : List ℕ :=
  fs.filterMap fun
    | ⟨k, .varint n⟩ => if k = number then some n else none
    | ⟨_, .bytes _⟩ => none

def blobs (number : ℕ) (fs : List Field) : List (List UInt8) :=
  fs.filterMap fun
    | ⟨k, .bytes b⟩ => if k = number then some b else none
    | ⟨_, .varint _⟩ => none

def uintOf (number : ℕ) (fs : List Field) : ℕ := (varints number fs).getLast?.getD 0

def subOf (number : ℕ) (fs : List Field) : Option (List UInt8) := (blobs number fs).getLast?

def blobOf (number : ℕ) (fs : List Field) : List UInt8 := (subOf number fs).getD []

variable {number : ℕ} {b : List UInt8} {o : Option (List UInt8)}

@[simp] theorem varints_append :
    varints number (fs ++ fs') = varints number fs ++ varints number fs' :=
  List.filterMap_append

@[simp] theorem blobs_append :
    blobs number (fs ++ fs') = blobs number fs ++ blobs number fs' :=
  List.filterMap_append

@[simp] theorem varints_uint :
    varints number (uint k n) = if k = number then (if n = 0 then [] else [n]) else [] := by
  unfold varints uint
  by_cases hn : n = 0 <;> by_cases hk : k = number <;> simp [hn, hk]

@[simp] theorem varints_blob : varints number (blob k b) = [] := by
  unfold varints blob
  split_ifs <;> rfl

@[simp] theorem varints_sub : varints number (sub k o) = [] := by
  cases o <;> rfl

@[simp] theorem blobs_uint : blobs number (uint k n) = [] := by
  unfold blobs uint
  split_ifs <;> rfl

@[simp] theorem blobs_blob :
    blobs number (blob k b) = if k = number then (if b = [] then [] else [b]) else [] := by
  unfold blobs blob
  by_cases hb : b = [] <;> by_cases hk : k = number <;> simp [hb, hk]

@[simp] theorem blobs_sub : blobs number (sub k o) = if k = number then o.toList else [] := by
  unfold blobs sub
  cases o <;> by_cases hk : k = number <;> simp [hk]

@[simp] theorem getLast?_uint : ((if n = 0 then [] else [n]).getLast?).getD 0 = n := by
  by_cases hn : n = 0 <;> simp [hn]

@[simp] theorem getLast?_blob : ((if b = [] then [] else [b]).getLast?).getD [] = b := by
  by_cases hb : b = [] <;> simp [hb]

@[simp] theorem getLast?_toList : o.toList.getLast? = o := by
  cases o <;> rfl

/-- The fields all fit. -/
def AllFit (fs : List Field) : Prop := ∀ f ∈ fs, f.Fits

theorem eq_of_mem_uint {f : Field} (hf : f ∈ uint k n) : f = ⟨k, .varint n⟩ := by
  unfold uint at hf
  split_ifs at hf
  · exact absurd hf List.not_mem_nil
  · exact List.mem_singleton.mp hf

theorem eq_of_mem_blob {f : Field} (hf : f ∈ blob k b) : f = ⟨k, .bytes b⟩ := by
  unfold blob at hf
  split_ifs at hf
  · exact absurd hf List.not_mem_nil
  · exact List.mem_singleton.mp hf

theorem AllFit.append (h : AllFit fs) (h' : AllFit fs') : AllFit (fs ++ fs') :=
  List.forall_mem_append.mpr ⟨h, h'⟩

theorem allFit_uint (hk : 0 < k ∧ k < 2 ^ 29) (hn : n < 2 ^ 64) : AllFit (uint k n) := by
  intro f hf
  rw [eq_of_mem_uint hf]
  exact ⟨hk.1, hk.2, hn⟩

theorem allFit_blob (hk : 0 < k ∧ k < 2 ^ 29) (hb : b.length < 2 ^ 64) : AllFit (blob k b) := by
  intro f hf
  rw [eq_of_mem_blob hf]
  exact ⟨hk.1, hk.2, hb⟩

theorem allFit_sub (hk : 0 < k ∧ k < 2 ^ 29) (hb : ∀ b ∈ o, b.length < 2 ^ 64) :
    AllFit (sub k o) := by
  intro f hf
  obtain ⟨b, hmem, rfl⟩ := List.mem_map.mp hf
  exact ⟨hk.1, hk.2, hb b (Option.mem_toList.mp hmem)⟩

theorem Typed.append {types : List (ℕ × ℕ)} (h : Typed types fs) (h' : Typed types fs') :
    Typed types (fs ++ fs') :=
  List.forall_mem_append.mpr ⟨h, h'⟩

theorem typed_uint {types : List (ℕ × ℕ)} (h : (k, 0) ∈ types) : Typed types (uint k n) := by
  intro f hf
  rw [eq_of_mem_uint hf]
  exact h

theorem typed_blob {types : List (ℕ × ℕ)} (h : (k, 2) ∈ types) : Typed types (blob k b) := by
  intro f hf
  rw [eq_of_mem_blob hf]
  exact h

theorem typed_sub {types : List (ℕ × ℕ)} (h : (k, 2) ∈ types) : Typed types (sub k o) := by
  intro f hf
  obtain ⟨b, -, rfl⟩ := List.mem_map.mp hf
  exact h

/-! ### Sizes -/

theorem encode_append : encode (fs ++ fs') = encode fs ++ encode fs' := List.flatMap_append

theorem length_encode_append_le {a c : ℕ} (h : (encode fs).length ≤ a)
    (h' : (encode fs').length ≤ c) : (encode (fs ++ fs')).length ≤ a + c := by
  rw [encode_append, List.length_append]
  exact Nat.add_le_add h h'

theorem length_encode_varint (hk : k < 16) :
    (encode [⟨k, .varint n⟩]).length = 1 + (varint n).length := by
  have htag : varint (8 * k + (Value.varint n).wireType) = [(8 * k).toUInt8] := by
    rw [varint_of_lt (by simp only [Value.wireType]; omega)]
    rfl
  simp [encode, Field.encode, htag, Value.encode, Nat.add_comm]

theorem length_encode_uint_of_ne (hk : k < 16) (hn : n ≠ 0) :
    (encode (uint k n)).length = 1 + (varint n).length := by
  rw [uint, if_neg hn, length_encode_varint hk]

theorem length_encode_uint_le (hk : k < 16) (hn : n < 2 ^ 64) :
    (encode (uint k n)).length ≤ 11 := by
  unfold uint
  split_ifs
  · simp [encode]
  · have := length_varint_le_ten hn
    rw [length_encode_varint hk]
    omega

/-- The size of a string of bytes, with its tag and its length. -/
def sizeOfBytes (b : List UInt8) : ℕ := 1 + (varint b.length).length + b.length

theorem length_encode_bytes (hk : k < 16) :
    (encode [⟨k, .bytes b⟩]).length = sizeOfBytes b := by
  have htag : varint (8 * k + (Value.bytes b).wireType) = [(8 * k + 2).toUInt8] := by
    rw [varint_of_lt (by simp only [Value.wireType]; omega)]
    rfl
  simp only [encode, List.flatMap_singleton, Field.encode, htag, Value.encode, List.length_append,
    List.length_singleton, sizeOfBytes]
  omega

theorem sizeOfBytes_le (hb : b.length < 128 ^ (k + 1)) : sizeOfBytes b ≤ b.length + (k + 2) := by
  have := length_varint_le hb
  unfold sizeOfBytes
  omega

theorem length_encode_sub (hk : k < 16) : (encode (sub k (some b))).length = sizeOfBytes b :=
  length_encode_bytes hk

theorem length_encode_blob_of_ne (hk : k < 16) (hb : b ≠ []) :
    (encode (blob k b)).length = sizeOfBytes b := by
  rw [blob, if_neg hb, length_encode_bytes hk]

theorem length_encode_blob_le (hk : k < 16) (hb : b.length < 2 ^ 64) :
    (encode (blob k b)).length ≤ 11 + b.length := by
  by_cases hnil : b = []
  · simp [blob, hnil, encode]
  · have hlt : b.length < 128 ^ (9 + 1) := hb.trans (by decide)
    have := sizeOfBytes_le hlt
    rw [length_encode_blob_of_ne hk hnil]
    omega

/-! ### Streams of messages -/

def delimit (m : List UInt8) : List UInt8 := varint m.length ++ m

inductive DelimError
  | eof
  | unexpectedEOF
  | sizeTooLarge (size : ℕ)
deriving DecidableEq, Repr

/-- Reads the bytes of the next message, which may not have more than `maxSize` of them. -/
def readDelimited (maxSize : ℕ) (bs : List UInt8) :
    Except DelimError (List UInt8 × List UInt8) :=
  if bs = [] then .error .eof
  else
    match readVarint bs with
    | none => .error .unexpectedEOF
    | some (size, rest) =>
      if maxSize < size then .error (.sizeTooLarge size)
      else if rest.length < size then .error .unexpectedEOF
      else .ok (rest.take size, rest.drop size)

theorem readDelimited_delimit {maxSize : ℕ} (h : m.length < 2 ^ 64) :
    readDelimited maxSize (delimit m ++ rest) =
      if maxSize < m.length then .error (.sizeTooLarge m.length) else .ok (m, rest) := by
  have hne : delimit m ++ rest ≠ [] := by simp [delimit, varint_ne_nil]
  have hread : readVarint (delimit m ++ rest) = some (m.length, m ++ rest) := by
    unfold delimit
    rw [List.append_assoc, readVarint_varint h]
  have hall : ¬ (m ++ rest).length < m.length := by simp
  unfold readDelimited
  rw [if_neg hne, hread]
  dsimp only
  rw [if_neg hall, List.take_left, List.drop_left]

theorem readDelimited_append {maxSize : ℕ} {bs q : List UInt8}
    (h : readDelimited maxSize bs = .ok (m, rest)) :
    readDelimited maxSize (bs ++ q) = .ok (m, rest ++ q) := by
  unfold readDelimited at h ⊢
  split_ifs at h with hnil
  have hne : bs ++ q ≠ [] := by simp [hnil]
  cases hread : readVarint bs with
  | none => simp [hread] at h
  | some p =>
    obtain ⟨size, after⟩ := p
    simp only [hread] at h
    split_ifs at h with hlarge hshort
    obtain ⟨rfl, rfl⟩ := Prod.mk.inj (Except.ok.inj h)
    have hle : size ≤ after.length := not_lt.mp hshort
    have hall : ¬ (after ++ q).length < size := by
      rw [List.length_append]
      omega
    rw [if_neg hne, readVarint_append hread]
    dsimp only
    rw [if_neg hlarge, if_neg hall, List.take_append_of_le_length hle,
      List.drop_append_of_le_length hle]

theorem length_lt_of_readDelimited {maxSize : ℕ} {bs : List UInt8}
    (h : readDelimited maxSize bs = .ok (m, rest)) : rest.length < bs.length := by
  unfold readDelimited at h
  split_ifs at h
  cases hread : readVarint bs with
  | none => simp [hread] at h
  | some p =>
    obtain ⟨size, after⟩ := p
    simp only [hread] at h
    split_ifs at h
    obtain ⟨-, rfl⟩ := Prod.mk.inj (Except.ok.inj h)
    have hafter : after.length < bs.length := length_lt_of_readVarint hread
    rw [List.length_drop]
    omega

end Netsy.Lib.WireFormat
