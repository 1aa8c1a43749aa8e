import Netsy.Lib.Wildcard
import Netsy.Proto
import Mathlib.Data.FinEnum
import Mathlib.Data.List.Forall2
import Mathlib.Data.List.Lex

/-! # Blobs in SQLite

Blobs compare byte by byte. `LIKE` reads both its operands as text: UTF-8 up to the first NUL, with
a decoder that accepts any bytes (a lead byte takes all continuation bytes after it, a byte that
starts no character is a character of its own). It ignores the case of ASCII letters, and it fails
on a pattern of more than 50000 bytes. -/

namespace Netsy.LocalDB.Blob

open Proto Lib.Wildcard

instance instLinearOrderUInt8 : LinearOrder UInt8 where
  le_refl := UInt8.le_refl
  le_trans _ _ _ := UInt8.le_trans
  le_antisymm _ _ := UInt8.le_antisymm
  le_total := UInt8.le_total
  lt_iff_le_not_ge a b := by
    simp only [UInt8.le_iff_toNat_le, UInt8.lt_iff_toNat_lt]
    omega
  toDecidableLE := inferInstance
  toDecidableLT := inferInstance
  toDecidableEq := inferInstance

/-! ### Text -/

def isContinuation (b : UInt8) : Bool := 0x80 ≤ b && b < 0xc0

/-- The bits of a lead byte that count, `sqlite3Utf8Trans1`. -/
def leadBits (b : UInt8) : ℕ :=
  if b < 0xe0 then b.toNat % 32
  else if b < 0xf0 then b.toNat % 16
  else if b < 0xf8 then b.toNat % 8
  else if b < 0xfc then b.toNat % 4
  else if b < 0xfe then b.toNat % 2
  else 0

/-- Code points that a sequence of several bytes may not stand for are replaced. -/
def checkPoint (c : ℕ) : ℕ :=
  if c < 0x80 ∨ c / 0x800 = 0x1b ∨ c / 2 = 0x7fff then 0xfffd else c

/-- The character under way, if there is one. -/
def endChar (lead : Option ℕ) : List ℕ := (lead.map checkPoint).toList

/-- One byte of text: the characters that end, and the one under way. -/
def readByte (lead : Option ℕ) (b : UInt8) : List ℕ × Option ℕ :=
  match lead, isContinuation b with
  | some c, true => ([], some ((c * 64 + b.toNat % 64) % 2 ^ 32))
  | _, _ =>
    if b < 0xc0 then (endChar lead ++ [b.toNat], none) else (endChar lead, some (leadBits b))

/-- The characters of a blob. -/
def readText (lead : Option ℕ) : Bytes → List ℕ
  | [] => endChar lead
  | b :: bs =>
    if b = 0 then endChar lead
    else (readByte lead b).1 ++ readText (readByte lead b).2 bs

/-! ### `LIKE` -/

def isLetter (c : ℕ) : Bool := (65 ≤ c && c ≤ 90) || (97 ≤ c && c ≤ 122)

/-- `sqlite3Tolower`. -/
def toLower (c : ℕ) : ℕ := if 65 ≤ c ∧ c ≤ 90 then c + 32 else c

/-- Characters that `LIKE` takes for the same. -/
def sameChar (a b : ℕ) : Bool := a = b || (a < 0x80 && b < 0x80 && toLower a = toLower b)

/-- The character `%` stands for any run of characters, `_` for one. -/
def symbolOf (c : ℕ) : Symbol ℕ := if c = 37 then .many else if c = 95 then .one else .literal c

/-- `patternCompare` on the two texts. -/
def patternCompare (pattern text : Bytes) : Bool :=
  accepts sameChar ((readText none pattern).map symbolOf) (readText none text)

/-- `SQLITE_MAX_LIKE_PATTERN_LENGTH`. -/
def maxLikePatternLength : ℕ := 50000

/-- `text LIKE pattern`; `none` is the error "LIKE or GLOB pattern too complex". -/
def like (pattern text : Bytes) : Option Bool :=
  if maxLikePatternLength < pattern.length then none else some (patternCompare pattern text)

/-! ### What is read -/

variable {lead : Option ℕ} {b : UInt8} {u v w key k : Bytes} {c : ℕ}

theorem readText_cons (h0 : b ≠ 0) :
    readText lead (b :: v) = (readByte lead b).1 ++ readText (readByte lead b).2 v := if_neg h0

theorem readText_of_lt (h0 : b ≠ 0) (h : b < 0xc0) :
    readText none (b :: v) = b.toNat :: readText none v := by
  simp [readText_cons h0, readByte, endChar, h]

theorem readText_of_ge (h : 0xc0 ≤ b) :
    readText none (b :: v) = readText (some (leadBits b)) v := by
  have h0 : b ≠ 0 := by
    rintro rfl
    exact absurd h (by decide)
  simp [readText_cons h0, readByte, endChar, not_lt.mpr h]

theorem readText_append_of_lt (hu : ∀ b ∈ u, b ≠ 0 ∧ b < 0xc0) :
    readText none (u ++ v) = u.map UInt8.toNat ++ readText none v := by
  induction u with
  | nil => rfl
  | cons b u ih =>
    obtain ⟨h0, h⟩ := hu b (by simp)
    rw [List.cons_append, readText_of_lt h0 h, ih fun c hc => hu c (by simp [hc])]
    rfl

theorem readText_append_zero : readText lead (u ++ 0 :: v) = readText lead u := by
  induction u generalizing lead with
  | nil => rfl
  | cons b u ih => simp only [List.cons_append, readText, ih]

theorem readText_append_ascii (h0 : 0 ∉ u) (hb : b ≠ 0) (h : b < 0x80) :
    readText lead (u ++ b :: v) = readText lead u ++ readText none (b :: v) := by
  induction u generalizing lead with
  | nil =>
    have hc : isContinuation b = false := by simp [isContinuation, h]
    have hlt : b < 0xc0 := h.trans (by decide)
    rw [readText_of_lt hb hlt]
    cases lead <;> simp [readText, readByte, hc, hb, hlt, endChar]
  | cons d u ih =>
    have hd : d ≠ 0 := fun hd => h0 (by simp [hd])
    rw [List.cons_append, readText_cons hd, readText_cons hd, ih fun hu => h0 (by simp [hu]),
      List.append_assoc]

theorem readText_append_congr (h : ∀ lead, readText lead v = readText lead w) :
    readText lead (u ++ v) = readText lead (u ++ w) := by
  induction u generalizing lead with
  | nil => exact h lead
  | cons b u ih => simp only [List.cons_append, readText, ih]

theorem le_checkPoint (c : ℕ) : 0x80 ≤ checkPoint c := by
  unfold checkPoint
  split_ifs <;> omega

theorem exists_readText_some (c : ℕ) (v : Bytes) :
    ∃ d l, readText (some c) v = d :: l ∧ 0x80 ≤ d := by
  induction v generalizing c with
  | nil => exact ⟨_, _, rfl, le_checkPoint c⟩
  | cons b v ih =>
    rcases eq_or_ne b 0 with rfl | h0
    · exact ⟨_, _, rfl, le_checkPoint c⟩
    rw [readText_cons h0]
    cases hc : isContinuation b with
    | true => simpa [readByte, hc] using ih _
    | false =>
      refine ⟨checkPoint c, ?_⟩
      simp only [readByte, hc]
      split_ifs <;> exact ⟨_, rfl, le_checkPoint c⟩

theorem readText_eq_nil (hv : v ≠ []) : readText none v = [] ↔ [0] <+: v := by
  cases v with
  | nil => exact absurd rfl hv
  | cons b v =>
    rw [List.cons_prefix_cons]
    rcases eq_or_ne b 0 with rfl | h0
    · simp [readText, endChar]
    · rcases lt_or_ge b 0xc0 with h | h
      · simp [readText_of_lt h0 h, h0.symm]
      · obtain ⟨d, l, hd, -⟩ := exists_readText_some (leadBits b) v
        simp [readText_of_ge h, hd, h0.symm]

/-! ### Prefixes -/

/-- The byte stands for itself in a pattern, and nothing else is read as it. -/
def plain (b : UInt8) : Bool := b ≠ 0 && b < 0x80 && !isLetter b.toNat && b ≠ 37 && b ≠ 95

theorem plain_iff : plain b ↔ b ≠ 0 ∧ b < 0x80 ∧ isLetter b.toNat = false ∧ b ≠ 37 ∧ b ≠ 95 := by
  simp [plain, and_assoc]

theorem symbolOf_of_ne (h : b ≠ 37) (h' : b ≠ 95) : symbolOf b.toNat = .literal b.toNat := by
  have h37 : b.toNat ≠ 37 := fun he => h (UInt8.toNat_inj.mp he)
  have h95 : b.toNat ≠ 95 := fun he => h' (UInt8.toNat_inj.mp he)
  simp [symbolOf, h37, h95]

theorem sameChar_of_not_letter {a d : ℕ} (ha : isLetter a = false) :
    sameChar a d = true ↔ d = a := by
  have hna : ¬ (65 ≤ a ∧ a ≤ 90) ∧ ¬ (97 ≤ a ∧ a ≤ 122) := by
    simpa [isLetter, Bool.and_eq_false_iff, imp_iff_not_or, not_le] using ha
  have hsame : sameChar a d = true ↔ a = d ∨ ((a < 0x80 ∧ d < 0x80) ∧ toLower a = toLower d) := by
    simp [sameChar]
  rw [hsame]
  unfold toLower
  constructor
  · rintro (h | ⟨-, h⟩)
    · exact h.symm
    · split_ifs at h <;> omega
  · exact fun h => Or.inl h.symm

theorem covers_symbolOf (c : ℕ) : (symbolOf c).covers sameChar c = true := by
  unfold symbolOf
  split_ifs <;> simp [Symbol.covers, sameChar]

theorem map_prefix_readText (hkey : ∀ b ∈ key, b ≠ 0 ∧ b < 0x80) :
    key.map UInt8.toNat <+: readText none k ↔ key <+: k := by
  induction key generalizing k with
  | nil => simp
  | cons b key ih =>
    obtain ⟨hb0, hb⟩ := hkey b (by simp)
    have hrest := fun c hc => hkey c (List.mem_cons_of_mem b hc)
    cases k with
    | nil => simp [readText, endChar]
    | cons d k =>
      rcases eq_or_ne d 0 with rfl | hd0
      · simp [readText, endChar, hb0]
      · rcases lt_or_ge d 0xc0 with hd | hd
        · rw [readText_of_lt hd0 hd, List.map_cons, List.cons_prefix_cons, List.cons_prefix_cons,
            ih hrest, UInt8.toNat_inj]
        · obtain ⟨e, l, he, hle⟩ := exists_readText_some (leadBits d) k
          rw [readText_of_ge hd, he, List.map_cons, List.cons_prefix_cons, List.cons_prefix_cons]
          have hbe : b.toNat ≠ e := by
            have := UInt8.lt_iff_toNat_lt.mp hb
            simp at this
            omega
          have hbd : b ≠ d := fun h => absurd (h ▸ hb) (not_lt.mpr ((by decide : _ ≤ _).trans hd))
          simp [hbe, hbd]

theorem patternCompare_of_plain (hkey : ∀ b ∈ key, plain b) :
    patternCompare (key ++ [37]) k = true ↔ key <+: k := by
  have hascii : ∀ b ∈ key, b ≠ 0 ∧ b < 0x80 := fun b hb =>
    ⟨(plain_iff.mp (hkey b hb)).1, (plain_iff.mp (hkey b hb)).2.1⟩
  have hpat : (readText none (key ++ [37])).map symbolOf =
      (key.map UInt8.toNat).map Symbol.literal ++ [.many] := by
    rw [readText_append_of_lt fun b hb => ⟨(hascii b hb).1, (hascii b hb).2.trans (by decide)⟩,
      List.map_append]
    congr 1
    rw [List.map_map, List.map_map]
    refine List.map_congr_left fun b hb => ?_
    obtain ⟨-, -, -, h37, h95⟩ := plain_iff.mp (hkey b hb)
    exact symbolOf_of_ne h37 h95
  rw [patternCompare, hpat, accepts_prefix, map_prefix_readText hascii]
  intro a ha d
  obtain ⟨b, hb, rfl⟩ := List.mem_map.mp ha
  exact sameChar_of_not_letter (plain_iff.mp (hkey b hb)).2.2.1

/-! ### What a pattern matches besides -/

theorem forall₂_symbolOf (l : List ℕ) :
    List.Forall₂ (fun x c => x.covers sameChar c = true) (l.map symbolOf) l :=
  List.forall₂_map_left_iff.mpr (List.forall₂_same.mpr fun c _ => covers_symbolOf c)

theorem patternCompare_of_readText_eq (h0 : 0 ∉ key) (h : readText none k = readText none key) :
    patternCompare (key ++ [37]) k = true := by
  rw [patternCompare, h, readText_append_ascii h0 (by decide) (by decide), List.map_append]
  have hmany : accepts sameChar ((readText none [37]).map symbolOf) [] = true := by decide
  simpa using accepts_of_forall₂ (forall₂_symbolOf (readText none key)) hmany

/-- Other bytes that read like a lead byte. -/
def aliasOf (b : UInt8) : Bytes :=
  if b = 0xc0 then [0xe0] else [0xc0, UInt8.ofNat (0x80 + leadBits b)]

theorem leadBits_lt (b : UInt8) : leadBits b < 32 := by
  unfold leadBits
  split_ifs <;> omega

theorem readText_lead (h : 0xc0 ≤ b) :
    readText lead (b :: v) = endChar lead ++ readText (some (leadBits b)) v := by
  have h0 : b ≠ 0 := by
    rintro rfl
    exact absurd h (by decide)
  have hc : isContinuation b = false := by simp [isContinuation, not_lt.mpr h]
  rw [readText_cons h0]
  cases lead <;> simp [readByte, hc, not_lt.mpr h]

theorem readText_continuation {d : UInt8} (hd : isContinuation d = true) :
    readText (some c) (d :: v) = readText (some ((c * 64 + d.toNat % 64) % 2 ^ 32)) v := by
  have h0 : d ≠ 0 := by
    rintro rfl
    exact absurd hd (by decide)
  rw [readText_cons h0]
  simp [readByte, hd]

theorem readText_aliasOf (h : 0xc0 ≤ b) :
    readText lead (aliasOf b ++ v) = readText lead (b :: v) := by
  unfold aliasOf
  split_ifs with he
  · subst he
    rw [List.singleton_append, readText_lead (by decide), readText_lead h]
    rfl
  · have hlt := leadBits_lt b
    have hx : (UInt8.ofNat (0x80 + leadBits b)).toNat = 0x80 + leadBits b := by
      apply UInt8.toNat_ofNat_of_lt'
      change 0x80 + leadBits b < 256
      omega
    have hxc : isContinuation (UInt8.ofNat (0x80 + leadBits b)) = true := by
      simp only [isContinuation, UInt8.le_iff_toNat_le, UInt8.lt_iff_toNat_lt, hx,
        Bool.and_eq_true, decide_eq_true_eq]
      change 128 ≤ 0x80 + leadBits b ∧ 0x80 + leadBits b < 192
      omega
    have hbits : (leadBits 0xc0 * 64 + (0x80 + leadBits b) % 64) % 2 ^ 32 = leadBits b := by
      rw [show leadBits 0xc0 = 0 from rfl]
      omega
    have hc0 : (0xc0 : UInt8) ≤ 0xc0 := le_rfl
    rw [List.cons_append, List.singleton_append, readText_lead hc0, readText_lead h,
      readText_continuation hxc, hx, hbits]

theorem not_prefix_of_ne {d : UInt8} (hne : b ≠ d) : ¬ u ++ b :: v <+: u ++ d :: w := by
  rw [List.prefix_append_right_inj, List.cons_prefix_cons]
  exact fun h => hne h.1

theorem not_prefix_aliasOf (b : UInt8) : ¬ u ++ b :: v <+: u ++ (aliasOf b ++ w) := by
  unfold aliasOf
  split_ifs with he
  · exact not_prefix_of_ne (by rw [he]; decide)
  · exact not_prefix_of_ne he

/-- A byte that `LIKE` takes for another one. -/
def confusedWith (b : UInt8) : UInt8 := if isLetter b.toNat then b ^^^ 32 else 1

theorem covers_confusedWith (h0 : b ≠ 0) (h : b < 0x80) (hp : plain b = false) :
    confusedWith b ≠ b ∧ confusedWith b ≠ 0 ∧ confusedWith b < 0xc0 ∧
      (symbolOf b.toNat).covers sameChar (confusedWith b).toNat = true := by
  revert b
  decide +kernel

theorem exists_last_not_ascii (h : ∃ b ∈ key, 0x80 ≤ b) :
    ∃ u b v, key = u ++ b :: v ∧ 0x80 ≤ b ∧ ∀ d ∈ v, d < 0x80 := by
  induction key with
  | nil => simp at h
  | cons d key ih =>
    by_cases hk : ∃ b ∈ key, 0x80 ≤ b
    · obtain ⟨u, b, v, rfl, hb, hv⟩ := ih hk
      exact ⟨d :: u, b, v, rfl, hb, hv⟩
    · have hv : ∀ b ∈ key, b < 0x80 := fun b hb => lt_of_not_ge fun hle => hk ⟨b, hb, hle⟩
      obtain ⟨b, hb, hle⟩ := h
      rcases List.mem_cons.mp hb with rfl | hb
      · exact ⟨[], b, key, rfl, hle, hv⟩
      · exact absurd hle (not_le.mpr (hv b hb))

/-- A continuation byte after no lead byte reads like a character of two bytes. -/
theorem readText_two_bytes (hb : isContinuation b = true) (hv : ∀ d ∈ v, d ≠ 0 ∧ d < 0x80) :
    readText none (0xc2 :: b :: v) = b.toNat :: readText none v := by
  have hrange : 128 ≤ b.toNat ∧ b.toNat < 192 := by
    simpa [isContinuation, UInt8.le_iff_toNat_le, UInt8.lt_iff_toNat_lt] using hb
  have hpoint : (leadBits 0xc2 * 64 + b.toNat % 64) % 2 ^ 32 = b.toNat := by
    rw [show leadBits 0xc2 = 2 from rfl]
    omega
  have hcheck : checkPoint b.toNat = b.toNat := by
    unfold checkPoint
    rw [if_neg]
    omega
  rw [readText_of_ge (by decide), readText_continuation hb, hpoint]
  cases v with
  | nil => simp [readText, endChar, hcheck]
  | cons d v =>
    obtain ⟨h0, hd⟩ := hv d (by simp)
    have happ : readText (some b.toNat) ([] ++ d :: v) = _ :=
      readText_append_ascii (by simp) h0 hd
    simpa [readText, endChar, hcheck] using happ

/-- The pattern made of the prefix matches the blob, which does not start with it. -/
def Mismatch (key k : Bytes) : Prop :=
  k ≠ [] ∧ patternCompare (key ++ [37]) k = true ∧ ¬ key <+: k

theorem exists_mismatch_of_zero (h0 : 0 ∈ key) (hkey : key ≠ [0]) : ∃ k, Mismatch key k := by
  obtain ⟨u, v, rfl⟩ := List.append_of_mem h0
  have hself : ∀ k, readText none k = readText none u →
      patternCompare (u ++ 0 :: v ++ [37]) k = true := by
    intro k hk
    rw [patternCompare, hk, List.append_assoc, List.cons_append, readText_append_zero]
    have hnil : accepts sameChar [] [] = true := rfl
    simpa using accepts_of_forall₂ (forall₂_symbolOf (readText none u)) hnil
  rcases eq_or_ne u [] with rfl | hu
  · refine ⟨[0], by simp, hself _ rfl, fun hp => hkey ?_⟩
    exact (List.prefix_iff_eq_take.mp hp).trans (by simp)
  · refine ⟨u, hu, hself u rfl, fun hp => ?_⟩
    have hlen := hp.length_le
    rw [List.length_append, List.length_cons] at hlen
    omega

theorem exists_mismatch_of_lead (h0 : 0 ∉ key) (hb : b ∈ key) (hle : 0xc0 ≤ b) :
    ∃ k, Mismatch key k := by
  obtain ⟨u, v, rfl⟩ := List.append_of_mem hb
  refine ⟨u ++ (aliasOf b ++ v), ?_, patternCompare_of_readText_eq h0 ?_, not_prefix_aliasOf b⟩
  · unfold aliasOf
    split_ifs <;> simp
  · exact readText_append_congr fun lead => readText_aliasOf hle

theorem exists_mismatch_of_continuation (hkey : ∀ b ∈ key, b ≠ 0 ∧ b < 0xc0)
    (h : ∃ b ∈ key, 0x80 ≤ b) : ∃ k, Mismatch key k := by
  obtain ⟨u, b, v, rfl, hb, hv⟩ := exists_last_not_ascii h
  obtain ⟨hb0, hbc⟩ := hkey b (by simp)
  have h0 : 0 ∉ u ++ b :: v := fun h0 => (hkey 0 h0).1 rfl
  have hu : ∀ d ∈ u, d ≠ 0 ∧ d < 0xc0 := fun d hd => hkey d (by simp [hd])
  refine ⟨u ++ 0xc2 :: b :: v, by simp, patternCompare_of_readText_eq h0 ?_, not_prefix_of_ne ?_⟩
  · rw [readText_append_of_lt hu, readText_append_of_lt hu, readText_of_lt hb0 hbc,
      readText_two_bytes (by simp [isContinuation, hb, hbc])
        fun d hd => ⟨(hkey d (by simp [hd])).1, hv d hd⟩]
  · rintro rfl
    exact absurd hbc (by decide)

theorem exists_mismatch_of_ascii (hkey : ∀ b ∈ key, b ≠ 0 ∧ b < 0x80) (hb : b ∈ key)
    (hp : plain b = false) : ∃ k, Mismatch key k := by
  obtain ⟨hne, hd0, hdlt, hcov⟩ := covers_confusedWith (hkey b hb).1 (hkey b hb).2 hp
  have hlt : ∀ d ∈ key, d ≠ 0 ∧ d < 0xc0 := fun d hd =>
    ⟨(hkey d hd).1, (hkey d hd).2.trans (by decide)⟩
  obtain ⟨u, v, rfl⟩ := List.append_of_mem hb
  have hu : ∀ d ∈ u, d ≠ 0 ∧ d < 0xc0 := fun d hd => hlt d (by simp [hd])
  have hv : ∀ d ∈ v, d ≠ 0 ∧ d < 0xc0 := fun d hd => hlt d (by simp [hd])
  have hpat : readText none (u ++ b :: v ++ [37]) =
      u.map UInt8.toNat ++ b.toNat :: (v.map UInt8.toNat ++ [37]) := by
    rw [readText_append_of_lt hlt]
    simp [readText, readByte, endChar]
  have htext : readText none (u ++ confusedWith b :: v) =
      u.map UInt8.toNat ++ (confusedWith b).toNat :: v.map UInt8.toNat := by
    have hend := readText_append_of_lt (v := []) hv
    rw [readText_append_of_lt hu, readText_of_lt hd0 hdlt]
    simpa [readText, endChar] using hend
  refine ⟨u ++ confusedWith b :: v, by simp, ?_, not_prefix_of_ne hne.symm⟩
  rw [patternCompare, hpat, htext, List.map_append, List.map_cons, List.map_append]
  refine accepts_of_forall₂ (forall₂_symbolOf _) (accepts_cons hcov ?_)
  have hmany : accepts sameChar ([37].map symbolOf) [] = true := by decide
  simpa using accepts_of_forall₂ (forall₂_symbolOf (v.map UInt8.toNat)) hmany

theorem exists_mismatch (hkey : key ≠ [0]) (h : ¬ ∀ b ∈ key, plain b) : ∃ k, Mismatch key k := by
  by_cases h0 : 0 ∈ key
  · exact exists_mismatch_of_zero h0 hkey
  by_cases hlead : ∃ b ∈ key, 0xc0 ≤ b
  · obtain ⟨b, hb, hle⟩ := hlead
    exact exists_mismatch_of_lead h0 hb hle
  have hne : ∀ b ∈ key, b ≠ 0 := fun b hb hb0 => h0 (hb0 ▸ hb)
  by_cases hcont : ∃ b ∈ key, 0x80 ≤ b
  · refine exists_mismatch_of_continuation (fun b hb => ⟨hne b hb, ?_⟩) hcont
    exact lt_of_not_ge fun hle => hlead ⟨b, hb, hle⟩
  · obtain ⟨b, hb, hp⟩ : ∃ b ∈ key, plain b = false := by simpa using h
    refine exists_mismatch_of_ascii (fun d hd => ⟨hne d hd, ?_⟩) hb hp
    exact lt_of_not_ge fun hle => hcont ⟨d, hd, hle⟩

theorem patternCompare_prefix_iff :
    (∀ k, k ≠ [] → (patternCompare (key ++ [37]) k = true ↔ key <+: k)) ↔
      key = [0] ∨ ∀ b ∈ key, plain b := by
  constructor
  · intro h
    by_contra hn
    obtain ⟨hkey, hplain⟩ := not_or.mp hn
    obtain ⟨k, hk, hmatch, hp⟩ := exists_mismatch hkey hplain
    exact hp ((h k hk).mp hmatch)
  · rintro (rfl | hplain) k hk
    · rw [← readText_eq_nil hk]
      simp [patternCompare, readText, endChar]
    · exact patternCompare_of_plain hplain

/-- **`LIKE` finds the blobs with a prefix** exactly if the pattern is not too long and the prefix
is plain, or the single NUL. -/
theorem like_prefix_iff :
    (∀ k, k ≠ [] → (like (key ++ [37]) k = some true ↔ key <+: k)) ↔
      key.length < maxLikePatternLength ∧ (key = [0] ∨ ∀ b ∈ key, plain b) := by
  have hlength : (key ++ [37]).length = key.length + 1 := by simp
  rw [← patternCompare_prefix_iff]
  by_cases hlong : maxLikePatternLength < (key ++ [37]).length
  · -- the prefix itself is not found
    have hne : key ≠ [] := by
      rintro rfl
      exact absurd hlong (by decide)
    refine iff_of_false (fun h => ?_) fun h => by omega
    have hself := (h key hne).mpr (List.prefix_refl key)
    rw [like, if_pos hlong] at hself
    cases hself
  · have hlike : ∀ k, like (key ++ [37]) k = some true ↔ patternCompare (key ++ [37]) k = true := by
      intro k
      rw [like, if_neg hlong, Option.some.injEq]
    simp only [hlike]
    exact (and_iff_right (by omega)).symm

end Netsy.LocalDB.Blob
