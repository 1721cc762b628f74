import Mathlib.Data.List.Basic
import Mathlib.Data.List.Count

/-!
# UTF-8, decoded in chunks

`decode` turns bytes into UTF-16 code units and puts a replacement character for every maximal part that
is not well formed, and for one that is cut off at the end. `decode_encode` says that the encoding of
characters is decoded.

A text whose bytes are decoded chunk by chunk comes out as it is exactly when no chunk begins inside a
character (`decode_chunks_iff`): each cut inside a character leaves more replacement characters than the
character itself can be.
-/

namespace Utf8

/-- What a decoder has seen of a character: nothing, or a beginning that stands for `point`, after which
a byte from `low` to `high` comes and then `more` continuation bytes. -/
inductive State
  | start
  | within (more low high point : Nat)

/-- The code units of a code point. -/
def units (n : Nat) : List UInt16 :=
  if n < 0x10000 then [UInt16.ofNat n]
  else [UInt16.ofNat (0xD800 + (n - 0x10000) / 0x400), UInt16.ofNat (0xDC00 + (n - 0x10000) % 0x400)]

def replacement : UInt16 := 0xFFFD

def IsContinuation (b : UInt8) : Prop := 0x80 ≤ b.toNat ∧ b.toNat < 0xC0

instance (b : UInt8) : Decidable (IsContinuation b) := inferInstanceAs (Decidable (_ ∧ _))

/-- The first byte of a character. -/
def lead (b : UInt8) : State × List UInt16 :=
  let n := b.toNat
  if n < 0x80 then (.start, units n)
  else if n < 0xC2 then (.start, [replacement])
  else if n < 0xE0 then (.within 0 0x80 0xBF (n - 0xC0), [])
  else if n < 0xF0 then
    (.within 1 (if n = 0xE0 then 0xA0 else 0x80) (if n = 0xED then 0x9F else 0xBF) (n - 0xE0), [])
  else if n < 0xF5 then
    (.within 2 (if n = 0xF0 then 0x90 else 0x80) (if n = 0xF4 then 0x8F else 0xBF) (n - 0xF0), [])
  else (.start, [replacement])

def step : State → UInt8 → State × List UInt16
  | .start, b => lead b
  | .within more low high point, b =>
    if low ≤ b.toNat ∧ b.toNat ≤ high then
      let point := point * 64 + b.toNat % 64
      match more with
      | 0 => (.start, units point)
      | more + 1 => (.within more 0x80 0xBF point, [])
    else ((lead b).1, replacement :: (lead b).2)

def decodeFrom : State → List UInt8 → List UInt16
  | .start, [] => []
  | .within _ _ _ _, [] => [replacement]
  | s, b :: bs => (step s b).2 ++ decodeFrom (step s b).1 bs

def decode (bs : List UInt8) : List UInt16 := decodeFrom .start bs

def encode (cs : List Char) : List UInt8 := cs.flatMap String.utf8EncodeChar

/-- The code units of a text. -/
def utf16 (cs : List Char) : List UInt16 := cs.flatMap fun c => units c.toNat

/-- The bytes `q` end the character that the decoder is within. -/
inductive Ends : State → List UInt8 → Nat → Prop
  | last {b : UInt8} {low high point : Nat} (h : low ≤ b.toNat ∧ b.toNat ≤ high)
    (hb : IsContinuation b) : Ends (.within 0 low high point) [b] (point * 64 + b.toNat % 64)
  | next {b : UInt8} {q : List UInt8} {more low high point n : Nat}
    (h : low ≤ b.toNat ∧ b.toNat ≤ high) (hb : IsContinuation b)
    (hq : Ends (.within more 0x80 0xBF (point * 64 + b.toNat % 64)) q n) :
    Ends (.within (more + 1) low high point) (b :: q) n

variable {b : UInt8} {bs p q : List UInt8} {c : Char} {cs : List Char} {s : State} {n : Nat}

@[simp] theorem decode_nil : decode [] = [] := rfl

@[simp] theorem encode_cons : encode (c :: cs) = String.utf8EncodeChar c ++ encode cs := rfl

@[simp] theorem utf16_cons : utf16 (c :: cs) = units c.toNat ++ utf16 cs := rfl

theorem decodeFrom_cons : decodeFrom s (b :: bs) = (step s b).2 ++ decodeFrom (step s b).1 bs := by
  cases s <;> rfl

/-! ## Characters -/

theorem Ends.ne_nil (h : Ends s q n) : q ≠ [] := by cases h <;> exact List.cons_ne_nil _ _

theorem Ends.continuation (h : Ends s q n) : ∀ b ∈ q, IsContinuation b := by
  induction h with
  | last _ hb => simpa using hb
  | next _ hb _ ih => exact List.forall_mem_cons.2 ⟨hb, ih⟩

theorem Ends.decodeFrom_append (h : Ends s q n) :
    decodeFrom s (q ++ bs) = units n ++ decode bs := by
  induction h with
  | last h _ =>
    rw [List.cons_append, List.nil_append, decodeFrom_cons, step, if_pos h]
    rfl
  | next h _ _ ih =>
    rw [List.cons_append, decodeFrom_cons, step, if_pos h]
    exact ih

/-- A character that is cut off is replaced. -/
theorem Ends.decodeFrom_cut {r : List UInt8} (h : Ends s (p ++ r) n) (hr : r ≠ []) :
    decodeFrom s p = [replacement] := by
  induction p generalizing s with
  | nil => cases h <;> rfl
  | cons b p ih =>
    rw [List.cons_append] at h
    generalize hq : b :: (p ++ r) = q at h
    cases h with
    | last _ _ =>
      obtain ⟨-, hnil⟩ := List.cons.inj hq
      exact absurd (List.append_eq_nil_iff.1 hnil).2 hr
    | next h _ hends =>
      obtain ⟨rfl, rfl⟩ := List.cons.inj hq
      rw [decodeFrom_cons, step, if_pos h]
      exact ih hends

theorem toNat_ofNat (h : n < 0x100) : (UInt8.ofNat n).toNat = n := by
  rw [UInt8.toNat_ofNat', Nat.mod_eq_of_lt h]

theorem isContinuation_ofNat {m : Nat} (hm : m < 0x40) : IsContinuation (UInt8.ofNat (m + 0x80)) := by
  rw [IsContinuation, toNat_ofNat (by omega)]
  omega

theorem Ends.of_last {m low high x : Nat} (hm : m < 0x40) (h : low ≤ m + 0x80 ∧ m + 0x80 ≤ high) :
    Ends (.within 0 low high x) [UInt8.ofNat (m + 0x80)] (x * 64 + m) := by
  have hb : (UInt8.ofNat (m + 0x80)).toNat = m + 0x80 := toNat_ofNat (by omega)
  have hlast : Ends (.within 0 low high x) [UInt8.ofNat (m + 0x80)]
      (x * 64 + (UInt8.ofNat (m + 0x80)).toNat % 64) :=
    Ends.last (hb.symm ▸ h) (isContinuation_ofNat hm)
  rwa [hb, show (m + 0x80) % 64 = m by omega] at hlast

theorem Ends.of_next {m more low high x : Nat} (hm : m < 0x40)
    (h : low ≤ m + 0x80 ∧ m + 0x80 ≤ high) (hq : Ends (.within more 0x80 0xBF (x * 64 + m)) q n) :
    Ends (.within (more + 1) low high x) (UInt8.ofNat (m + 0x80) :: q) n := by
  have hb : (UInt8.ofNat (m + 0x80)).toNat = m + 0x80 := toNat_ofNat (by omega)
  refine Ends.next (hb.symm ▸ h) (isContinuation_ofNat hm) ?_
  rwa [hb, show (m + 0x80) % 64 = m by omega]

/-- A character is an ASCII byte, or a first byte and those that end it. -/
theorem encode_cases (c : Char) :
    c.toNat < 0x80 ∧ String.utf8EncodeChar c = [UInt8.ofNat c.toNat] ∨
    ∃ b q s, String.utf8EncodeChar c = b :: q ∧ lead b = (s, []) ∧ Ends s q c.toNat ∧
      ¬ IsContinuation b := by
  have hvalid : c.toNat < 0xD800 ∨ 0xDFFF < c.toNat ∧ c.toNat < 0x110000 := c.valid
  generalize hv : c.toNat = v at hvalid ⊢
  rw [String.utf8EncodeChar, show c.val.toNat = v from hv]
  by_cases h1 : v ≤ 0x7f
  · exact .inl ⟨by omega, if_pos h1⟩
  refine .inr ?_
  by_cases h2 : v ≤ 0x7ff
  · have hb : (UInt8.ofNat (v / 64 % 0x20 + 0xc0)).toNat = v / 64 % 0x20 + 0xc0 :=
      toNat_ofNat (by omega)
    refine ⟨_, _, .within 0 0x80 0xBF (v / 64), (if_neg h1).trans (if_pos h2), ?_, ?_, ?_⟩
    · rw [lead, hb, if_neg (by omega), if_neg (by omega), if_pos (by omega),
        show v / 64 % 0x20 + 0xc0 - 0xC0 = v / 64 by omega]
    · have hends := Ends.of_last (x := v / 64) (show v % 0x40 < 0x40 by omega)
        (show 0x80 ≤ v % 0x40 + 0x80 ∧ v % 0x40 + 0x80 ≤ 0xBF by omega)
      rwa [show v / 64 * 64 + v % 0x40 = v by omega] at hends
    · rw [IsContinuation, hb]
      omega
  by_cases h3 : v ≤ 0xffff
  · have hb : (UInt8.ofNat (v / 4096 % 0x10 + 0xe0)).toNat = v / 4096 % 0x10 + 0xe0 :=
      toNat_ofNat (by omega)
    refine ⟨_, _, .within 1 (if v / 4096 + 0xE0 = 0xE0 then 0xA0 else 0x80)
      (if v / 4096 + 0xE0 = 0xED then 0x9F else 0xBF) (v / 4096),
      (if_neg h1).trans ((if_neg h2).trans (if_pos h3)), ?_, ?_, ?_⟩
    · rw [lead, hb, if_neg (by omega), if_neg (by omega), if_neg (by omega), if_pos (by omega),
        show v / 4096 % 0x10 + 0xe0 = v / 4096 + 0xE0 by omega, Nat.add_sub_cancel]
    · have hends := Ends.of_last (x := v / 4096 * 64 + v / 64 % 0x40)
        (show v % 0x40 < 0x40 by omega)
        (show 0x80 ≤ v % 0x40 + 0x80 ∧ v % 0x40 + 0x80 ≤ 0xBF by omega)
      rw [show (v / 4096 * 64 + v / 64 % 0x40) * 64 + v % 0x40 = v by omega] at hends
      refine Ends.of_next (by omega) ?_ hends
      split <;> split <;> omega
    · rw [IsContinuation, hb]
      omega
  · have hb : (UInt8.ofNat (v / 262144 % 0x08 + 0xf0)).toNat = v / 262144 % 0x08 + 0xf0 :=
      toNat_ofNat (by omega)
    refine ⟨_, _, .within 2 (if v / 262144 + 0xF0 = 0xF0 then 0x90 else 0x80)
      (if v / 262144 + 0xF0 = 0xF4 then 0x8F else 0xBF) (v / 262144),
      (if_neg h1).trans ((if_neg h2).trans (if_neg h3)), ?_, ?_, ?_⟩
    · rw [lead, hb, if_neg (by omega), if_neg (by omega), if_neg (by omega), if_neg (by omega),
        if_pos (by omega), show v / 262144 % 0x08 + 0xf0 = v / 262144 + 0xF0 by omega,
        Nat.add_sub_cancel]
    · have hends := Ends.of_last (x := (v / 262144 * 64 + v / 4096 % 0x40) * 64 + v / 64 % 0x40)
        (show v % 0x40 < 0x40 by omega)
        (show 0x80 ≤ v % 0x40 + 0x80 ∧ v % 0x40 + 0x80 ≤ 0xBF by omega)
      rw [show ((v / 262144 * 64 + v / 4096 % 0x40) * 64 + v / 64 % 0x40) * 64 + v % 0x40 = v by
        omega] at hends
      refine Ends.of_next (by omega) ?_ (Ends.of_next (by omega) (by omega) hends)
      split <;> split <;> omega
    · rw [IsContinuation, hb]
      omega

theorem decode_char : decode (String.utf8EncodeChar c ++ bs) = units c.toNat ++ decode bs := by
  rcases encode_cases c with ⟨hlt, hc⟩ | ⟨b, q, s, hc, hlead, hends, -⟩
  · rw [hc, decode, List.cons_append, decodeFrom_cons, step, lead, toNat_ofNat (by omega), if_pos hlt]
    rfl
  · rw [hc, decode, List.cons_append, decodeFrom_cons, step, hlead]
    exact hends.decodeFrom_append

theorem decode_append : decode (encode cs ++ bs) = utf16 cs ++ decode bs := by
  induction cs with
  | nil => rfl
  | cons c cs ih => rw [encode_cons, List.append_assoc, decode_char, ih, utf16_cons, List.append_assoc]

theorem decode_encode : decode (encode cs) = utf16 cs := by
  rw [← List.append_nil (encode cs), decode_append, decode_nil, List.append_nil]

/-- Some bytes of a character, but not all. -/
theorem decode_cut (h : String.utf8EncodeChar c = p ++ q) (hp : p ≠ []) (hq : q ≠ []) :
    decode p = [replacement] ∧ ∀ b ∈ q, IsContinuation b := by
  obtain ⟨b, p, rfl⟩ := List.exists_cons_of_ne_nil hp
  rcases encode_cases c with ⟨-, hc⟩ | ⟨b', q', s, hc, hlead, hends, -⟩
  · rw [hc, List.cons_append] at h
    exact absurd (List.append_eq_nil_iff.1 (List.cons.inj h).2.symm).2 hq
  · rw [hc, List.cons_append] at h
    obtain ⟨rfl, rfl⟩ := List.cons.inj h
    refine ⟨?_, fun b hb => hends.continuation b (List.mem_append_right _ hb)⟩
    rw [decode, decodeFrom_cons, step, hlead]
    exact hends.decodeFrom_cut hq

theorem decode_continuation (h : IsContinuation b) : decode (b :: bs) = replacement :: decode bs := by
  rw [decode, decodeFrom_cons, step, lead, if_neg (by have := h.1; omega),
    if_pos (by have := h.2; omega)]
  rfl

theorem units_ne_nil (n : Nat) : units n ≠ [] := by
  rw [units]
  split <;> exact List.cons_ne_nil _ _

theorem decodeFrom_within_ne_nil {more low high x : Nat} :
    decodeFrom (.within more low high x) bs ≠ [] := by
  induction bs generalizing more low high x with
  | nil => exact List.cons_ne_nil _ _
  | cons b bs ih =>
    rw [decodeFrom_cons, step]
    split
    · cases more with
      | zero => exact List.append_ne_nil_of_left_ne_nil (units_ne_nil _) _
      | succ more => exact ih
    · exact List.cons_ne_nil _ _

/-- Bytes do not vanish. -/
theorem decode_ne_nil (h : bs ≠ []) : decode bs ≠ [] := by
  obtain ⟨b, bs, rfl⟩ := List.exists_cons_of_ne_nil h
  rw [decode, decodeFrom_cons, step, lead]
  split
  · exact List.append_ne_nil_of_left_ne_nil (units_ne_nil _) _
  split
  · exact List.cons_ne_nil _ _
  split
  · exact decodeFrom_within_ne_nil
  split
  · exact decodeFrom_within_ne_nil
  split
  · exact decodeFrom_within_ne_nil
  · exact List.cons_ne_nil _ _

/-! ## Chunks -/

/-- No chunk begins inside a character. -/
def Aligned (chunks : List (List UInt8)) : Prop :=
  ∀ chunk ∈ chunks, ∀ b ∈ chunk.head?, ¬ IsContinuation b

instance (chunks : List (List UInt8)) : Decidable (Aligned chunks) :=
  inferInstanceAs (Decidable (∀ chunk ∈ chunks, ∀ b ∈ chunk.head?, ¬ IsContinuation b))

variable {chunk : List UInt8} {chunks : List (List UInt8)}

theorem aligned_cons : Aligned (chunk :: chunks) ↔
    (∀ b ∈ chunk.head?, ¬ IsContinuation b) ∧ Aligned chunks := List.forall_mem_cons

theorem aligned_cons_of_head (h : ∀ b ∈ chunk.head?, ¬ IsContinuation b) :
    Aligned (chunk :: chunks) ↔ Aligned chunks := aligned_cons.trans (and_iff_right h)

/-- Some chunk starts with what the chunks start with. -/
theorem Aligned.head (h : Aligned chunks) (hb : chunks.flatten = b :: bs) : ¬ IsContinuation b := by
  induction chunks with
  | nil => cases hb
  | cons chunk chunks ih =>
    obtain ⟨hhead, htail⟩ := aligned_cons.1 h
    cases chunk with
    | nil => exact ih htail hb
    | cons a chunk =>
      obtain ⟨rfl, -⟩ := List.cons.inj hb
      exact hhead a rfl

theorem encode_head (hb : encode cs = b :: bs) : ¬ IsContinuation b := by
  cases cs with
  | nil => cases hb
  | cons c cs =>
    rw [encode_cons] at hb
    rcases encode_cases c with ⟨hlt, hc⟩ | ⟨b', q, s, hc, -, -, hlead⟩
    · rw [hc, List.cons_append] at hb
      obtain ⟨rfl, -⟩ := List.cons.inj hb
      rw [IsContinuation, toNat_ofNat (by omega)]
      omega
    · rw [hc, List.cons_append] at hb
      obtain ⟨rfl, -⟩ := List.cons.inj hb
      exact hlead

theorem encodeChar_ne_nil (c : Char) : String.utf8EncodeChar c ≠ [] := by
  rcases encode_cases c with ⟨-, hc⟩ | ⟨b, q, s, hc, -⟩ <;> (rw [hc]; exact List.cons_ne_nil _ _)

/-- A chunk at the front of a character has all of it, or some of its bytes. -/
theorem chunk_cases {r r' : List UInt8} (h : chunk ++ r = p ++ r') :
    (∃ rest, chunk = p ++ rest ∧ rest ++ r = r') ∨ ∃ q, q ≠ [] ∧ p = chunk ++ q ∧ r = q ++ r' := by
  rcases List.append_eq_append_iff.1 h with ⟨q, rfl, rfl⟩ | ⟨q, rfl, hr⟩
  · by_cases hq : q = []
    · subst hq
      exact .inl ⟨[], by simp, rfl⟩
    · exact .inr ⟨q, hq, rfl, rfl⟩
  · exact .inl ⟨q, rfl, hr.symm⟩

theorem count_units (c : Char) : (units c.toNat).count replacement ≤ 1 := by
  have hvalid : c.toNat < 0xD800 ∨ 0xDFFF < c.toNat ∧ c.toNat < 0x110000 := c.valid
  rw [units]
  split
  · exact List.count_le_length
  · have hhigh : UInt16.ofNat (0xD800 + (c.toNat - 0x10000) / 0x400) ≠ replacement := by
      intro h
      have hnat := congrArg UInt16.toNat h
      rw [UInt16.toNat_ofNat', Nat.mod_eq_of_lt (by omega)] at hnat
      change _ = 0xFFFD at hnat
      omega
    rw [List.count_cons_of_ne hhigh]
    exact List.count_le_length

/-- How the end `q` of a character and the characters `cs` lie in chunks. -/
inductive Lies : List (List UInt8) → List UInt8 → List Char → Prop
  | nil : Lies [] [] []
  | empty {chunks : List (List UInt8)} {q : List UInt8} {cs : List Char} (h : Lies chunks q cs) :
    Lies ([] :: chunks) q cs
  | byte {b : UInt8} {chunk : List UInt8} {chunks : List (List UInt8)} {q : List UInt8}
    {cs : List Char} (hb : IsContinuation b) (h : Lies (chunk :: chunks) q cs) :
    Lies ((b :: chunk) :: chunks) (b :: q) cs
  | whole {c : Char} {rest : List UInt8} {chunks : List (List UInt8)} {cs : List Char}
    (h : Lies (rest :: chunks) [] cs) :
    Lies ((String.utf8EncodeChar c ++ rest) :: chunks) [] (c :: cs)
  | cut {c : Char} {chunk q : List UInt8} {chunks : List (List UInt8)} {cs : List Char}
    (hc : String.utf8EncodeChar c = chunk ++ q) (hchunk : chunk ≠ []) (hq : q ≠ [])
    (h : Lies chunks q cs) : Lies (chunk :: chunks) [] (c :: cs)

/-- The bytes and the chunks that are left. -/
def size (chunks : List (List UInt8)) : Nat := chunks.flatten.length + chunks.length

theorem size_cons : size (chunk :: chunks) = chunk.length + size chunks + 1 := by
  rw [size, size, List.flatten_cons, List.length_append, List.length_cons]
  omega

theorem lies_of_flatten (n : Nat) : ∀ {chunks : List (List UInt8)} {q : List UInt8} {cs : List Char},
    size chunks ≤ n → (∀ b ∈ q, IsContinuation b) → chunks.flatten = q ++ encode cs →
    Lies chunks q cs := by
  have hnil : ∀ {q : List UInt8} {cs : List Char}, [] = q ++ encode cs → Lies [] q cs := by
    intro q cs h
    obtain ⟨rfl, hcs⟩ := List.append_eq_nil_iff.1 h.symm
    cases cs with
    | nil => exact .nil
    | cons c cs => exact absurd (List.append_eq_nil_iff.1 hcs).1 (encodeChar_ne_nil c)
  induction n with
  | zero =>
    intro chunks q cs hn _ h
    cases chunks with
    | nil => exact hnil h
    | cons chunk chunks =>
      rw [size_cons] at hn
      omega
  | succ n ih =>
    intro chunks q cs hn hq h
    cases chunks with
    | nil => exact hnil h
    | cons chunk chunks =>
      rw [size_cons] at hn
      cases chunk with
      | nil => exact .empty (ih (by omega) hq h)
      | cons b chunk =>
        rw [List.length_cons] at hn
        cases q with
        | cons b' q =>
          obtain ⟨rfl, hrest⟩ := List.cons.inj h
          obtain ⟨hb, hq⟩ := List.forall_mem_cons.1 hq
          exact .byte hb (ih (by rw [size_cons]; omega) hq hrest)
        | nil =>
          cases cs with
          | nil => cases h
          | cons c cs =>
            rw [List.flatten_cons, List.nil_append, encode_cons] at h
            rcases chunk_cases h with ⟨rest, hchunk, hrest⟩ | ⟨q, hne, hc, hrest⟩
            · have hlength := congrArg List.length hchunk
              have hpos := List.length_pos_iff.2 (encodeChar_ne_nil c)
              rw [List.length_cons, List.length_append] at hlength
              rw [hchunk]
              exact .whole (ih (by rw [size_cons]; omega) (by simp) hrest)
            · have hcont := (decode_cut hc (List.cons_ne_nil _ _) hne).2
              exact .cut hc (List.cons_ne_nil _ _) hne (ih (by omega) hcont hrest)

/-- Each byte that continues a character from another chunk is replaced. -/
theorem Lies.count (h : Lies chunks q cs) :
    q.length + (utf16 cs).count replacement ≤ (chunks.flatMap decode).count replacement := by
  induction h with
  | nil => exact Nat.le_refl _
  | empty _ ih => exact ih
  | byte hb _ ih =>
    rw [List.flatMap_cons, List.count_append] at ih
    rw [List.flatMap_cons, decode_continuation hb, List.count_append, List.count_cons_self,
      List.length_cons]
    omega
  | whole _ ih =>
    rw [List.flatMap_cons, List.count_append] at ih
    rw [utf16_cons, List.count_append, List.flatMap_cons, decode_char, List.count_append,
      List.count_append]
    omega
  | @cut c _ _ _ _ hc hchunk hq _ ih =>
    have hpos := List.length_pos_iff.2 hq
    have hunits := count_units c
    rw [utf16_cons, List.count_append, List.flatMap_cons, (decode_cut hc hchunk hq).1,
      List.count_append, List.count_cons_self, List.count_nil, List.length_nil]
    omega

/-- Decoded chunk by chunk, a text is what it was, or there are too many replacement characters. -/
theorem Lies.decode (h : Lies chunks q cs) (hq : q = []) (hflat : chunks.flatten = encode cs) :
    Aligned chunks ∧ chunks.flatMap decode = utf16 cs ∨ ¬ Aligned chunks ∧
      (utf16 cs).count replacement < (chunks.flatMap decode).count replacement := by
  induction h with
  | nil => exact .inl ⟨nofun, rfl⟩
  | empty _ ih =>
    rw [aligned_cons_of_head (by simp)]
    exact ih hq hflat
  | byte => cases hq
  | @whole c rest chunks cs _ ih =>
    have hrest : (rest :: chunks).flatten = encode cs := by
      rw [List.flatten_cons, List.append_assoc, encode_cons] at hflat
      exact List.append_cancel_left hflat
    have hfirst : ∀ {rest : List UInt8} {cs : List Char} {r : List UInt8}, rest ++ r = encode cs →
        ∀ b ∈ rest.head?, ¬ IsContinuation b := by
      intro rest cs r h b hb
      obtain ⟨rest, rfl⟩ := List.head?_eq_some_iff.1 hb
      exact encode_head h.symm
    have hall := ih rfl hrest
    rw [aligned_cons_of_head (hfirst hrest), List.flatMap_cons, List.count_append] at hall
    rw [aligned_cons_of_head (hfirst hflat), List.flatMap_cons, decode_char, utf16_cons,
      List.count_append, List.count_append, List.count_append, List.append_assoc,
      List.append_right_inj]
    rcases hall with ⟨ha, hdecode⟩ | ⟨ha, hcount⟩
    · exact .inl ⟨ha, hdecode⟩
    · exact .inr ⟨ha, by omega⟩
  | @cut c chunk q chunks cs hc hchunk hne h _ =>
    have hrest : chunks.flatten = q ++ encode cs := by
      rw [List.flatten_cons, encode_cons, hc, List.append_assoc] at hflat
      exact List.append_cancel_left hflat
    obtain ⟨hcut, hcont⟩ := decode_cut hc hchunk hne
    have hcount := h.count
    have hpos := List.length_pos_iff.2 hne
    have hunits := count_units c
    refine .inr ⟨fun ha => ?_, ?_⟩
    · obtain ⟨b, q, rfl⟩ := List.exists_cons_of_ne_nil hne
      exact (aligned_cons.1 ha).2.head hrest (hcont b List.mem_cons_self)
    · rw [utf16_cons, List.count_append, List.flatMap_cons, hcut, List.count_append,
        List.count_cons_self, List.count_nil]
      omega

/-- **Decoding in chunks.** -/
theorem decode_chunks_iff (h : chunks.flatten = encode cs) :
    chunks.flatMap decode = utf16 cs ↔ Aligned chunks := by
  have hlies : Lies chunks [] cs := lies_of_flatten _ (Nat.le_refl _) (by simp) h
  rcases hlies.decode rfl h with ⟨ha, hdecode⟩ | ⟨ha, hcount⟩
  · exact iff_of_true hdecode ha
  · refine iff_of_false (fun hdecode => ?_) ha
    rw [hdecode] at hcount
    exact Nat.lt_irrefl _ hcount

/-! ## ASCII in a text -/

/-- No byte of the ASCII range comes within a character. -/
def State.NoAscii : State → Prop
  | .start => True
  | .within _ low _ _ => 0x80 ≤ low

theorem lead_noAscii (b : UInt8) : (lead b).1.NoAscii := by
  rw [lead]
  split
  · trivial
  split
  · trivial
  split
  · exact Nat.le_refl _
  split
  · simp only [State.NoAscii]
    split <;> omega
  split
  · simp only [State.NoAscii]
    split <;> omega
  · trivial

theorem step_noAscii (s : State) (b : UInt8) : (step s b).1.NoAscii := by
  cases s with
  | start => exact lead_noAscii b
  | within more low high x =>
    rw [step]
    split
    · cases more with
      | zero => trivial
      | succ more => exact Nat.le_refl _
    · exact lead_noAscii b

variable {a : UInt8}

theorem decodeFrom_append_ascii (ha : a.toNat < 0x80) (hs : s.NoAscii) :
    decodeFrom s (bs ++ a :: p) = decodeFrom s bs ++ a.toUInt16 :: decode p := by
  have hlead : lead a = (.start, [a.toUInt16]) := by
    have hunit : UInt16.ofNat a.toNat = a.toUInt16 :=
      UInt16.toNat_inj.1 (by rw [UInt16.toNat_ofNat', Nat.mod_eq_of_lt (by omega)]; rfl)
    rw [lead, if_pos ha, units, if_pos (by omega), hunit]
  induction bs generalizing s with
  | nil =>
    rw [List.nil_append, decodeFrom_cons]
    cases s with
    | start =>
      rw [step, hlead]
      rfl
    | within more low high x =>
      have hlow : 0x80 ≤ low := hs
      rw [step, if_neg (by omega), hlead]
      rfl
  | cons b bs ih =>
    rw [List.cons_append, decodeFrom_cons, decodeFrom_cons, ih (step_noAscii s b), List.append_assoc]

/-- A byte of the ASCII range ends what is before it. -/
theorem decode_append_ascii (ha : a.toNat < 0x80) :
    decode (bs ++ a :: p) = decode bs ++ a.toUInt16 :: decode p := decodeFrom_append_ascii ha trivial

theorem decode_ascii {t : List UInt8} (h : ∀ a ∈ t, a.toNat < 0x80) : decode t = t.map UInt8.toUInt16 := by
  induction t with
  | nil => rfl
  | cons a t ih =>
    obtain ⟨ha, ht⟩ := List.forall_mem_cons.1 h
    have hcons := @decode_append_ascii [] t a ha
    rw [List.map_cons, ← ih ht]
    exact hcons

theorem decode_append_of_ascii {t : List UInt8} (h : ∀ a ∈ t, a.toNat < 0x80) (ht : t ≠ []) :
    decode (bs ++ t) = decode bs ++ t.map UInt8.toUInt16 := by
  obtain ⟨a, t, rfl⟩ := List.exists_cons_of_ne_nil ht
  obtain ⟨ha, htail⟩ := List.forall_mem_cons.1 h
  rw [decode_append_ascii ha, decode_ascii htail, List.map_cons]

end Utf8
