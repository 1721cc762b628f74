import Mathlib.Data.List.Basic
import Fix42.Ipc.Proof.RoundTrip
import Fix42.Ipc.Stream

/-!
# Reads in bounds, and what a buffer keeps

`InBounds` is the invariant of every history: the cursor is inside the buffer and is a `size_t`. With
it `checkSize` says what it is for (`fits_iff`), and `ReadSpec` is what every read then does. A read
that fails leaves the buffer invalid, no operation makes it valid again (`runs_invalid`), and an
invalid buffer is read as `TypedRead.unread` says.
-/

namespace Fix42

namespace Net

variable {α β : Type} {b : Buffer} {r : TypedRead} {op : BufferOp} {ops : List BufferOp}

/-! ## The check -/

structure Buffer.InBounds (b : Buffer) : Prop where
  size : b.read ≤ b.data.length
  word : b.read < 2 ^ 64

theorem Buffer.fits_iff {size : Nat} (h : b.read < 2 ^ 64) (hs : size < 2 ^ 64) :
    b.fits size = true ↔
      b.valid = true ∧ b.read + size ≤ b.data.length ∧ b.read + size < 2 ^ 64 := by
  simp only [Buffer.fits, Bool.and_eq_true, decide_eq_true_eq, Bool.not_eq_true',
    decide_eq_false_iff_not]
  unfold sizeAdd
  constructor
  · rintro ⟨⟨hv, hle⟩, hover⟩
    exact ⟨hv, by omega, by omega⟩
  · rintro ⟨hv, hle, hlt⟩
    exact ⟨⟨hv, by omega⟩, by omega⟩

theorem Buffer.fits_of_invalid {size : Nat} (h : b.valid = false) : b.fits size = false := by
  rw [Buffer.fits, h, Bool.false_and, Bool.false_and]

theorem NumericType.size_pos (t : NumericType) : 0 < t.size := by cases t <;> decide

theorem NumericType.size_lt (t : NumericType) : t.size < 2 ^ 64 := by cases t <;> decide

theorem Buffer.advance_read {size : Nat} (h : b.read + size < 2 ^ 64) :
    (b.advance size).read = b.read + size := Nat.mod_eq_of_lt h

/-- What a read does to the buffer `b`, whatever it finds. -/
structure ReadSpec (b : Buffer) (o : ReadOutcome α) : Prop where
  bounds : o.buffer.InBounds
  data : o.buffer.data = b.data
  touched : ∀ i ∈ o.touched, i < b.data.length
  ok : o.buffer.valid = o.ok

theorem ReadSpec.map {o : ReadOutcome α} (h : ReadSpec b o) (f : α → β) : ReadSpec b (o.map f) :=
  ⟨h.bounds, h.data, h.touched, h.ok⟩

theorem Buffer.InBounds.advance {size : Nat} (h : b.InBounds) (hs : size < 2 ^ 64)
    (hfits : b.fits size = true) :
    (b.advance size).InBounds ∧ ∀ i ∈ b.positions size, i < b.data.length := by
  obtain ⟨-, hle, hlt⟩ := (Buffer.fits_iff h.word hs).1 hfits
  refine ⟨⟨?_, ?_⟩, fun i hi => ?_⟩
  · rw [Buffer.advance_read hlt]
    exact hle
  · rw [Buffer.advance_read hlt]
    exact hlt
  · rw [Buffer.positions, List.mem_range'_1] at hi
    omega

theorem Number.read_spec (target : Number) (h : b.InBounds) : ReadSpec b (target.read b) := by
  rw [Number.read]
  dsimp only
  split
  case isTrue hv =>
    obtain ⟨hadv, hpos⟩ := h.advance target.type.size_lt hv
    exact ⟨⟨hadv.size, hadv.word⟩, rfl, hpos, hv⟩
  case isFalse hv =>
    exact ⟨⟨h.size, h.word⟩, rfl, fun i hi => absurd hi List.not_mem_nil,
      Bool.eq_false_iff.2 hv⟩

theorem readString_spec (h : b.InBounds) : ReadSpec b (readString b) := by
  have hp := (Number.ofUInt32 0).read_spec h
  rw [readString]
  dsimp only
  split
  case isFalse => exact ⟨hp.bounds, hp.data, hp.touched, hp.ok⟩
  case isTrue =>
    split
    case isFalse hv =>
      exact ⟨⟨hp.bounds.size, hp.bounds.word⟩, hp.data, hp.touched, Bool.eq_false_iff.2 hv⟩
    case isTrue hv =>
      have hlt : ((Number.ofUInt32 0).read b).value.toUInt32.toNat < 2 ^ 64 :=
        (BitVec.isLt _).trans (by decide)
      obtain ⟨hadv, hpos⟩ := hp.bounds.advance hlt hv
      refine ⟨⟨hadv.size, hadv.word⟩, hp.data, fun i hi => ?_, hv⟩
      rcases List.mem_append.1 hi with hi | hi
      · exact hp.touched i hi
      · exact hp.data ▸ hpos i hi

theorem TypedRead.exec_spec (h : b.InBounds) (r : TypedRead) : ReadSpec b (r.exec b) := by
  cases r with
  | number target => exact (target.read_spec h).map Value.number
  | enumeration local' =>
    exact ((Number.ofByte local').read_spec h).map fun n => Value.enumeration n.toByte
  | string target => exact (readString_spec h).map Value.string

/-! ## An invalid buffer -/

theorem Number.read_of_not_fits {target : Number} (h : b.fits target.type.size = false) :
    target.read b = ⟨{ b with valid := false }, target, false, []⟩ := by
  rw [Number.read]
  simp only [h, Bool.false_eq_true, if_false]

theorem Number.read_invalid (target : Number) (h : b.valid = false) :
    target.read b = ⟨b, target, false, []⟩ := by
  rw [Number.read_of_not_fits (Buffer.fits_of_invalid h), ← h]

theorem TypedRead.exec_invalid (h : b.valid = false) (r : TypedRead) :
    r.exec b = ⟨b, r.unread, false, []⟩ := by
  cases r with
  | number target => rw [exec, Number.read_invalid _ h]; rfl
  | enumeration local' => rw [exec, Number.read_invalid _ h]; rfl
  | string target => rw [exec, readString, Number.read_invalid _ h]; rfl

namespace BufferOp

theorem run_inBounds (h : b.InBounds) (op : BufferOp) : (op.run b).InBounds := by
  cases op with
  | read r => exact (r.exec_spec h).bounds
  | append bytes =>
    refine ⟨h.size.trans ?_, h.word⟩
    rw [run, Buffer.append, List.length_append]
    exact Nat.le_add_right _ _
  | write v =>
    refine ⟨h.size.trans ?_, h.word⟩
    rw [run, Buffer.write, Buffer.append, List.length_append]
    exact Nat.le_add_right _ _
  | reset => exact ⟨Nat.zero_le _, Nat.zero_lt_succ _⟩
  | clear => exact ⟨Nat.zero_le _, Nat.zero_lt_succ _⟩

theorem runs_inBounds (h : b.InBounds) (ops : List BufferOp) : (runs b ops).InBounds := by
  induction ops generalizing b with
  | nil => exact h
  | cons op ops ih => exact ih (run_inBounds h op)

theorem inBounds_new : ({} : Buffer).InBounds := ⟨Nat.zero_le _, Nat.zero_lt_succ _⟩

theorem run_invalid (h : b.valid = false) (op : BufferOp) : (op.run b).valid = false := by
  cases op with
  | read r => rw [run, r.exec_invalid h]; exact h
  | append | write | reset | clear => exact h

theorem runs_invalid (h : b.valid = false) (ops : List BufferOp) : (runs b ops).valid = false := by
  induction ops generalizing b with
  | nil => exact h
  | cons op ops ih => exact ih (run_invalid h op)

/-- The cursor of an invalid buffer stays where it is until it is set back. -/
theorem runs_invalid_read (h : b.valid = false) (hops : ∀ op ∈ ops, op.resets = false) :
    (runs b ops).read = b.read := by
  induction ops generalizing b with
  | nil => rfl
  | cons op ops ih =>
    have hrun : (op.run b).read = b.read := by
      cases op with
      | read r => rw [run, r.exec_invalid h]
      | append | write => rfl
      | reset | clear => exact absurd (hops _ List.mem_cons_self) (by decide)
    exact (ih (run_invalid h op) fun op' hop => hops op' (List.mem_cons_of_mem _ hop)).trans hrun

theorem noneFailed_iff (hb : b.InBounds) (h : b.valid = true) (ops : List BufferOp) :
    NoneFailed b ops ↔ (runs b ops).valid = true := by
  induction ops generalizing b with
  | nil => exact ⟨fun _ => h, fun _ => trivial⟩
  | cons op ops ih =>
    by_cases hrun : (op.run b).valid = true
    · have hfirst : ∀ r, op = .read r → (r.exec b).ok = true := by
        rintro r rfl
        exact (r.exec_spec hb).ok.symm.trans hrun
      rw [NoneFailed, ih (run_inBounds hb op) hrun]
      exact and_iff_right hfirst
    · have hfalse := Bool.eq_false_iff.2 hrun
      have hread : ∃ r, op = .read r ∧ (r.exec b).ok = false := by
        cases op with
        | read r => exact ⟨r, rfl, (r.exec_spec hb).ok.symm.trans hfalse⟩
        | append | write | reset | clear => exact absurd h hrun
      obtain ⟨r, rfl, hok⟩ := hread
      constructor
      · intro hnone
        rw [hnone.1 r rfl] at hok
        cases hok
      · intro hvalid
        have hrest := runs_invalid hfalse ops
        rw [runs, List.foldl_cons] at hvalid
        rw [runs, hvalid] at hrest
        cases hrest

end BufferOp

/-- **Reads stay in bounds.** Whatever the buffer holds and has been through, a read touches bytes of
the buffer only and leaves the cursor in it; once a read fails, every later one leaves the cursor where
it is, and its number as it was, until the cursor is set back. -/
theorem reads_in_bounds (history : List BufferOp) (r : TypedRead) :
    (BufferOp.runs {} history).read ≤ (BufferOp.runs {} history).data.length ∧
    (r.exec (BufferOp.runs {} history)).buffer.read ≤ (BufferOp.runs {} history).data.length ∧
    (∀ i ∈ (r.exec (BufferOp.runs {} history)).touched,
      i < (BufferOp.runs {} history).data.length) ∧
    ((r.exec (BufferOp.runs {} history)).ok = false →
      ∀ ops : List BufferOp, (∀ op ∈ ops, op.resets = false) → ∀ r' : TypedRead,
        let failed := (r.exec (BufferOp.runs {} history)).buffer
        let later := r'.exec (BufferOp.runs failed ops)
        later.buffer.read = failed.read ∧ later.value = r'.unread) := by
  have hb := BufferOp.runs_inBounds BufferOp.inBounds_new history
  have hspec := r.exec_spec hb
  refine ⟨hb.size, hspec.data ▸ hspec.bounds.size, hspec.touched, fun hok ops hops r' => ?_⟩
  have hfailed := hspec.ok.trans hok
  have hlater := r'.exec_invalid (BufferOp.runs_invalid hfailed ops)
  intro failed later
  constructor
  · calc later.buffer.read = (BufferOp.runs failed ops).read := by rw [show later = _ from hlater]
      _ = failed.read := BufferOp.runs_invalid_read hfailed hops
  · rw [show later = _ from hlater]

/-- A string whose length is the largest there is: the read fails, and the next one too. -/
theorem reads_in_bounds_run :
    ((TypedRead.string [66]).exec ⟨true, 0, [255, 255, 255, 255, 65]⟩).buffer =
        ⟨false, 4, [255, 255, 255, 255, 65]⟩ ∧
      ((TypedRead.enumeration 7).exec ⟨false, 4, [255, 255, 255, 255, 65]⟩).value =
        .enumeration 7 := by
  have hexec : ((TypedRead.string [66]).exec ⟨true, 0, [255, 255, 255, 255, 65]⟩).buffer =
    ⟨false, 4, [255, 255, 255, 255, 65]⟩ := by decide +kernel
  obtain ⟨-, -, -, hlater⟩ :=
    reads_in_bounds [.append [255, 255, 255, 255, 65]] (.string [66])
  have hfailed := (hlater (by decide +kernel) [] nofun (.enumeration 7)).2
  rw [show BufferOp.runs {} [.append [255, 255, 255, 255, 65]] =
    ⟨true, 0, [255, 255, 255, 255, 65]⟩ from rfl, hexec] at hfailed
  exact ⟨hexec, hfailed⟩

end Net

end Fix42
