import Mathlib.Tactic.Tauto
import Fix42.Session.Model
import Fix42.Session.Proof.Units

/-!
# Sequence numbers of a session

After the Logon exchange both sides keep one number: what they have counted and received
(`Numbers`). A message fits the state it was stamped in (`Fits`), and the messages on their way are
in order (`Flow`). So the check compares what the sender had counted and received with what the
receiver has (`seqnum_check`): `seqnum_checks` says which messages fail it.
-/

namespace Fix42

namespace Session

variable {w v : Nat}

/-! ## The invariants -/

/-- The counter of a logged in party. -/
structure Numbers (base : Nat) (userId : String) (p : Party w) : Prop where
  loggedIn : p.loggedIn = true
  user : p.userId = userId
  seqNum : p.seqNum = BitVec.ofNat w (base + p.counted + p.received)

def Task.isCounted : Task → Bool
  | .counted _ => true
  | _ => false

/-- A message of `p` for `q` fits what its sender had counted and received. -/
structure Fits (base : Nat) (ids : String × String) (p : Party w) (q : Party v) (msg : Msg) :
    Prop where
  seqNum : msg.header.msgSeqNum = BitVec.ofNat 32 (base + msg.after + msg.seen)
  ids : (msg.header.senderCompId, msg.header.targetCompId) = ids
  msgType : msg.header.msgType ≠ 'A'
  after : msg.after ≤ p.counted
  seen : msg.seen ≤ q.counted

/-- The messages of `p` on their way over `ch` to the checks of `q`. -/
structure Flow (base : Nat) (ids : String × String) (p : Party w) (ch : List Msg) (q : Party v) :
    Prop where
  output : ∀ x ∈ p.output, x.msgType ≠ 'A'
  taken : ∀ x, .taken x ∈ p.pool → x.msgType ≠ 'A'
  counted : p.transmitted + p.pool.countP Task.isCounted = p.counted
  wire : q.received + ch.length = p.transmitted
  fits : ∀ msg ∈ p.pool.filterMap Task.msg? ++ ch ++ q.validation, Fits base ids p q msg
  nths : ch.map Msg.nth = List.range' (q.received + 1) ch.length
  late : ∀ msg ∈ q.validation, msg.nth ≤ q.received
  router : ∀ msg ∈ q.router, msg.header.msgType ≠ 'A'
  logon : q.logon = []

/-- With one thread the messages are stamped in turn. -/
structure Turn (p : Party w) (ch : List Msg) (q : Party v) : Prop where
  single : p.pool.length ≤ 1
  pool : ∀ msg, .stamped msg ∈ p.pool ∨ .counted msg ∈ p.pool → msg.after = p.transmitted
  wire : ∀ msg ∈ ch ++ q.validation, msg.InTurn

variable {base : Nat} {ids : String × String} {userId : String} {p p' : Party w} {q q' : Party v}
  {ch : List Msg} {msg : Msg}

theorem Fits.mono (h : Fits base ids p q msg) (hp : p.counted ≤ p'.counted)
    (hq : q.counted ≤ q'.counted) : Fits base ids p' q' msg :=
  { h with after := Nat.le_trans h.after hp, seen := Nat.le_trans h.seen hq }

/-! ## The check -/

/-- What the check compares. -/
theorem seqnum_check (hw : 32 ≤ w) (h : Numbers base userId p) {msg : Msg}
    (hs : msg.header.msgSeqNum = BitVec.ofNat 32 (base + msg.after + msg.seen))
    (h1 : base + msg.after + msg.seen < 2 ^ 32) (h2 : base + p.counted + p.received < 2 ^ 32)
    (h3 : 0 < p.received) :
    msg.header.msgSeqNum.setWidth w = p.seqNum - 1 ↔
      msg.after + msg.seen + 1 = p.counted + p.received := by
  have hpow : 2 ^ 32 ≤ 2 ^ w := Nat.pow_le_pow_right (by omega) hw
  have hone : 1 < 2 ^ w := by omega
  rw [hs, h.seqNum, ← BitVec.toNat_inj]
  have hl : ((BitVec.ofNat 32 (base + msg.after + msg.seen)).setWidth w).toNat =
      base + msg.after + msg.seen := by
    rw [BitVec.toNat_setWidth, BitVec.toNat_ofNat, Nat.mod_eq_of_lt h1, Nat.mod_eq_of_lt (by omega)]
  have hr : (BitVec.ofNat w (base + p.counted + p.received) - 1).toNat =
      base + p.counted + p.received - 1 := by
    rw [BitVec.toNat_sub_of_le]
    · simp [Nat.mod_eq_of_lt (show base + p.counted + p.received < 2 ^ w by omega),
        Nat.mod_eq_of_lt hone]
    · rw [BitVec.le_def]
      simp [Nat.mod_eq_of_lt (show base + p.counted + p.received < 2 ^ w by omega),
        Nat.mod_eq_of_lt hone]
      omega
  rw [hl, hr]
  omega

/-! ## The sender's steps -/

/-- Steps of the sender that leave its pool alone. -/
theorem Flow.sender (h : Flow base ids p ch q) (output : ∀ x ∈ p'.output, x.msgType ≠ 'A')
    (pool : p'.pool = p.pool) (counted : p'.counted = p.counted)
    (transmitted : p'.transmitted = p.transmitted) : Flow base ids p' ch q where
  output := output
  taken := pool ▸ h.taken
  counted := by rw [pool, counted, transmitted]; exact h.counted
  wire := transmitted ▸ h.wire
  fits msg hm := (h.fits msg (pool ▸ hm)).mono (Nat.le_of_eq counted.symm) (Nat.le_refl _)
  nths := h.nths
  late := h.late
  router := h.router
  logon := h.logon

/-- Steps of the receiver that leave its input alone. -/
theorem Flow.receiver (h : Flow base ids p ch q) (validation : q'.validation = q.validation)
    (router : q'.router = q.router) (logon : q'.logon = q.logon) (received : q'.received = q.received)
    (counted : q.counted ≤ q'.counted) : Flow base ids p ch q' where
  output := h.output
  taken := h.taken
  counted := h.counted
  wire := received ▸ h.wire
  fits msg hm := (h.fits msg (validation ▸ hm)).mono (Nat.le_refl _) counted
  nths := received ▸ h.nths
  late msg hm := received ▸ h.late msg (validation ▸ hm)
  router := router ▸ h.router
  logon := logon.trans h.logon

theorem Flow.take {n : Nat} (h : Flow base ids p ch q) (hp : Numbers base userId p)
    (hs : p.take n = some p') : Flow base ids p' ch q := by
  obtain ⟨x, rest, houtput, -, rfl⟩ := take_spec hs hp.loggedIn
  have hout : ∀ y ∈ x :: rest, y.msgType ≠ 'A' := houtput ▸ h.output
  refine { h with
    output := fun y hy => hout y (List.mem_cons_of_mem _ hy)
    taken := fun y hy => ?_, counted := ?_, fits := fun msg hm => ?_ }
  · rcases List.mem_append.1 hy with hy | hy
    · exact h.taken y hy
    · cases List.mem_singleton.1 hy
      exact hout x (List.mem_cons_self ..)
  · simpa [List.countP_append, Task.isCounted] using h.counted
  · refine (h.fits msg ?_).mono (Nat.le_refl _) (Nat.le_refl _)
    simpa [List.filterMap_append, Task.msg?] using hm

theorem countP_set {k : Nat} {t : Task} {l : List Task} (hk : l[k]? = some t) (t' : Task) :
    (l.set k t').countP Task.isCounted + (if t.isCounted then 1 else 0) =
      l.countP Task.isCounted + if t'.isCounted then 1 else 0 := by
  induction l generalizing k with
  | nil => cases hk
  | cons a l ih =>
    cases k with
    | zero =>
      cases hk
      simp only [List.set_cons_zero, List.countP_cons]
      omega
    | succ k =>
      have := ih (k := k) hk
      simp only [List.set_cons_succ, List.countP_cons]
      omega

theorem countP_eraseIdx {k : Nat} {t : Task} {l : List Task} (hk : l[k]? = some t) :
    (l.eraseIdx k).countP Task.isCounted + (if t.isCounted then 1 else 0) =
      l.countP Task.isCounted := by
  induction l generalizing k with
  | nil => cases hk
  | cons a l ih =>
    cases k with
    | zero =>
      cases hk
      simp [List.countP_cons]
    | succ k =>
      have := ih (k := k) hk
      simp only [List.eraseIdx_cons_succ, List.countP_cons]
      omega

/-- What replaces a task brings no message but its own. -/
theorem Flow.replace {k : Nat} {t t' : Task} (h : Flow base ids p ch q) (hk : p.pool[k]? = some t)
    (pool : p'.pool = p.pool.set k t') (output : p'.output = p.output)
    (transmitted : p'.transmitted = p.transmitted)
    (counted : p'.counted = p.counted + if t'.isCounted then 1 else 0) (ht : t.isCounted = false)
    (taken : ∀ x, t' ≠ .taken x) (fits : ∀ msg ∈ t'.msg?, Fits base ids p' q msg) :
    Flow base ids p' ch q where
  output := output ▸ h.output
  taken x hx := by
    rcases List.mem_or_eq_of_mem_set (pool ▸ hx) with hx | hx
    · exact h.taken x hx
    · exact absurd hx.symm (taken x)
  counted := by
    have hcount := countP_set hk t'
    have hold := h.counted
    rw [ht] at hcount
    rw [pool, counted, transmitted]
    simp only [Bool.false_eq_true, if_false, Nat.add_zero] at hcount
    omega
  wire := transmitted ▸ h.wire
  fits msg hm := by
    have hle : p.counted ≤ p'.counted := by omega
    rw [List.append_assoc, List.mem_append, pool] at hm
    rcases hm with hm | hm
    · obtain ⟨x, hx, hmsg⟩ := List.mem_filterMap.1 hm
      rcases List.mem_or_eq_of_mem_set hx with hx | rfl
      · refine (h.fits msg ?_).mono hle (Nat.le_refl _)
        rw [List.append_assoc]
        exact List.mem_append_left _ (List.mem_filterMap.2 ⟨x, hx, hmsg⟩)
      · exact fits msg hmsg
    · refine (h.fits msg ?_).mono hle (Nat.le_refl _)
      rw [List.append_assoc]
      exact List.mem_append_right _ hm
  nths := h.nths
  late := h.late
  router := h.router
  logon := h.logon

theorem Flow.stamp {fill : Party w → Header} {k : Nat} (h : Flow base ids p ch q)
    (hw : 32 ≤ w) (hp : Numbers base userId p)
    (hids : ((fill p).senderCompId, (fill p).targetCompId) = ids) (hseen : p.received ≤ q.counted) (hs : p.stamp fill k = some p') : Flow base ids p' ch q := by
  obtain ⟨x, header, hk, hseq, htype, hsender, htarget, rfl⟩ := stamp_spec hs
  refine h.replace hk rfl rfl rfl rfl rfl (fun _ => nofun) fun msg hm => ?_
  cases hm
  refine ⟨?_, ?_, ?_, Nat.le_refl _, hseen⟩
  · show header.msgSeqNum = _
    rw [hseq, hp.seqNum, BitVec.setWidth_ofNat_of_le hw]
  · rw [← hids, ← hsender, ← htarget]
  · show header.msgType ≠ 'A'
    rw [htype]
    exact h.taken x (List.mem_of_getElem? hk)

theorem Flow.count {k : Nat} (h : Flow base ids p ch q) (hs : p.count k = some p') :
    Flow base ids p' ch q := by
  obtain ⟨msg, hk, rfl⟩ := count_spec hs
  refine h.replace hk rfl rfl rfl rfl rfl (fun _ => nofun) fun msg' hm => ?_
  cases hm
  refine (h.fits msg ?_).mono (Nat.le_succ _) (Nat.le_refl _)
  rw [List.append_assoc]
  exact List.mem_append_left _ (List.mem_filterMap.2 ⟨_, List.mem_of_getElem? hk, rfl⟩)

theorem Flow.transmit {k : Nat} {out : Msg} (h : Flow base ids p ch q)
    (hs : p.transmit k = some (p', out)) : Flow base ids p' (ch ++ [out]) q := by
  obtain ⟨msg, hk, rfl, rfl⟩ := transmit_spec hs
  have hmsg : Fits base ids p q msg := by
    refine h.fits msg ?_
    rw [List.append_assoc]
    exact List.mem_append_left _ (List.mem_filterMap.2 ⟨_, List.mem_of_getElem? hk, rfl⟩)
  have hwire := h.wire
  refine { h with taken := fun x hx => ?_, counted := ?_, wire := ?_, fits := fun m hm => ?_, nths := ?_ }
  · exact h.taken x (List.mem_of_mem_eraseIdx hx)
  · have hcount := countP_eraseIdx hk
    have hold := h.counted
    simp only [Task.isCounted, if_true] at hcount
    show p.transmitted + 1 + (p.pool.eraseIdx k).countP Task.isCounted = p.counted
    omega
  · rw [List.length_append]
    simp
    omega
  · simp only [List.mem_append, List.mem_singleton] at hm
    rcases hm with (hm | hm | rfl) | hm
    · obtain ⟨x, hx, hm⟩ := List.mem_filterMap.1 hm
      have hx' := List.mem_of_mem_eraseIdx hx
      refine (h.fits m ?_).mono (Nat.le_refl _) (Nat.le_refl _)
      simp only [List.mem_append]
      exact .inl (.inl (List.mem_filterMap.2 ⟨x, hx', hm⟩))
    · exact (h.fits m (by simp [hm])).mono (Nat.le_refl _) (Nat.le_refl _)
    · exact { hmsg with }
    · exact (h.fits m (by simp [hm])).mono (Nat.le_refl _) (Nat.le_refl _)
  · rw [List.map_append, h.nths, List.length_append, List.length_singleton,
      List.range'_concat]
    simp
    omega

/-! ## The receiver's steps -/

theorem Flow.receive {msg : Msg} (h : Flow base ids p (msg :: ch) q) :
    Flow base ids p ch (q.receive msg) := by
  have hnths := h.nths
  have hwire := h.wire
  rw [List.map_cons, List.length_cons, List.range'_succ] at hnths
  obtain ⟨hhead, htail⟩ := List.cons.inj hnths
  refine { h with wire := ?_, fits := fun m hm => ?_, nths := htail, late := fun m hm => ?_ }
  · show q.received + 1 + ch.length = p.transmitted
    rw [List.length_cons] at hwire
    omega
  · refine (h.fits m ?_).mono (Nat.le_refl _) (Nat.le_refl _)
    simp only [Party.receive, List.mem_append, List.mem_cons] at hm ⊢
    tauto
  · show m.nth ≤ q.received + 1
    rcases List.mem_append.1 hm with hm | hm
    · exact Nat.le_succ_of_le (h.late m hm)
    · rw [List.mem_singleton.1 hm]
      omega

theorem Flow.validate {types : List Char} {verify : Party v → Header → Option SessionReject}
    (h : Flow base ids p ch q) (hs : q.validate types verify = some q') :
    Flow base ids p ch q' := by
  obtain ⟨msg, rest, hval, hcases⟩ := validate_spec hs
  have hfits : ∀ m ∈ rest, m ∈ q.validation := fun m hm => hval ▸ List.mem_cons_of_mem _ hm
  have hrest : Flow base ids p ch { q with validation := rest } := by
    refine { h with fits := fun m hm => ?_, late := fun m hm => h.late m (hfits m hm) }
    refine (h.fits m ?_).mono (Nat.le_refl _) (Nat.le_refl _)
    rcases List.mem_append.1 hm with hm | hm
    · exact List.mem_append_left _ hm
    · exact List.mem_append_right _ (hfits m hm)
  rcases hcases with rfl | ⟨-, rfl⟩
  · exact hrest.receiver rfl rfl rfl rfl (Nat.le_refl _)
  · refine { hrest with fits := fun m hm => { hrest.fits m hm with }, router := fun m hm => ?_ }
    rcases List.mem_append.1 hm with hm | hm
    · exact h.router m hm
    · rw [List.mem_singleton.1 hm]
      exact (h.fits msg (List.mem_append_right _ (by simp [hval]))).msgType

/-- A router gives a message that is no Logon to a handler, or answers it. -/
theorem Flow.route {rest : List Msg} (h : Flow base ids p ch q) (hrest : rest ⊆ q.router)
    (q' : Party v) (validation : q'.validation = q.validation) (router : q'.router = rest)
    (logon : q'.logon = q.logon) (received : q'.received = q.received)
    (counted : q'.counted = q.counted) : Flow base ids p ch q' := by
  have hq : Flow base ids p ch { q with router := rest } :=
    { h with fits := fun m hm => { h.fits m hm with }, router := fun m hm => h.router m (hrest hm) }
  exact hq.receiver validation router logon received (Nat.le_of_eq counted.symm)

/-! ## The counter -/

theorem Numbers.keep (h : Numbers base userId p) (loggedIn : p'.loggedIn = p.loggedIn)
    (user : p'.userId = p.userId) (seqNum : p'.seqNum = p.seqNum) (counted : p'.counted = p.counted)
    (received : p'.received = p.received) : Numbers base userId p' where
  loggedIn := loggedIn.trans h.loggedIn
  user := user.trans h.user
  seqNum := by rw [seqNum, counted, received, h.seqNum]

theorem Numbers.count {k : Nat} (h : Numbers base userId p) (hs : p.count k = some p') :
    Numbers base userId p' := by
  obtain ⟨msg, -, rfl⟩ := count_spec hs
  refine { h with seqNum := ?_ }
  show p.seqNum + 1 = BitVec.ofNat w (base + (p.counted + 1) + p.received)
  rw [h.seqNum, show base + (p.counted + 1) + p.received = base + p.counted + p.received + 1 by omega,
    BitVec.ofNat_add _ 1]
  rfl

theorem Numbers.receive (h : Numbers base userId p) (msg : Msg) :
    Numbers base userId (p.receive msg) := by
  refine { h with seqNum := ?_ }
  show (if p.loggedIn then p.seqNum + 1 else p.seqNum) =
    BitVec.ofNat w (base + p.counted + (p.received + 1))
  rw [h.loggedIn, if_pos rfl, h.seqNum, ← Nat.add_assoc, BitVec.ofNat_add _ 1]
  rfl

/-! ## One thread -/

theorem Turn.of_pool (h : Turn p ch q) (pool : p'.pool = p.pool)
    (transmitted : p'.transmitted = p.transmitted) (validation : q'.validation ⊆ q.validation) :
    Turn p' ch q' where
  single := pool ▸ h.single
  pool msg hm := by rw [transmitted]; exact h.pool msg (pool ▸ hm)
  wire msg hm := h.wire msg (List.append_subset.2 ⟨List.subset_append_left _ _,
    List.Subset.trans validation (List.subset_append_right _ _)⟩ hm)

theorem Turn.take (h : Turn p ch q) (hp : Numbers base userId p) (hs : p.take 1 = some p') :
    Turn p' ch q := by
  obtain ⟨x, rest, -, hlen, rfl⟩ := take_spec hs hp.loggedIn
  have hpool : p.pool = [] := List.length_eq_zero_iff.1 (Nat.lt_one_iff.1 hlen)
  exact { single := by simp [hpool], pool := fun msg hm => by simp [hpool] at hm, wire := h.wire }

theorem Turn.stamp {fill : Party w → Header} {k : Nat} (h : Turn p ch q)
    (hf : Flow base ids p ch q) (hs : p.stamp fill k = some p') : Turn p' ch q := by
  obtain ⟨x, header, hk, -, -, -, -, rfl⟩ := stamp_spec hs
  obtain ⟨hpool, rfl⟩ := pool_single h.single hk
  have hcount := hf.counted
  refine { single := by simp [hpool], pool := fun msg hm => ?_, wire := h.wire }
  simp only [hpool, List.set_cons_zero, List.mem_singleton, Task.stamped.injEq, reduceCtorEq,
    or_false] at hm
  rw [hm]
  simp only [hpool, List.countP_cons, List.countP_nil, Task.isCounted] at hcount
  exact hcount.symm

theorem Turn.count {k : Nat} (h : Turn p ch q) (hs : p.count k = some p') : Turn p' ch q := by
  obtain ⟨msg, hk, rfl⟩ := count_spec hs
  obtain ⟨hpool, rfl⟩ := pool_single h.single hk
  refine { single := by simp [hpool], pool := fun msg' hm => ?_, wire := h.wire }
  simp only [hpool, List.set_cons_zero, List.mem_singleton, Task.counted.injEq, reduceCtorEq,
    false_or] at hm
  rw [hm]
  exact h.pool msg (.inl (List.mem_of_getElem? hk))

theorem Turn.transmit {k : Nat} {out : Msg} (h : Turn p ch q) (hs : p.transmit k = some (p', out)) :
    Turn p' (ch ++ [out]) q := by
  obtain ⟨msg, hk, rfl, rfl⟩ := transmit_spec hs
  obtain ⟨hpool, rfl⟩ := pool_single h.single hk
  have hafter := h.pool msg (.inr (List.mem_of_getElem? hk))
  refine { single := by simp [hpool], pool := fun msg' hm => by simp [hpool] at hm, wire := ?_ }
  intro m hm
  rw [List.append_assoc, List.mem_append, List.mem_append, List.mem_singleton] at hm
  rcases hm with hm | rfl | hm
  · exact h.wire m (List.mem_append_left _ hm)
  · show msg.after + 1 = p.transmitted + 1
    rw [hafter]
  · exact h.wire m (List.mem_append_right _ hm)

theorem Turn.receive {msg : Msg} (h : Turn p (msg :: ch) q) : Turn p ch (q.receive msg) where
  single := h.single
  pool := h.pool
  wire m hm := h.wire m (by
    simp only [Party.receive, List.mem_append, List.mem_cons] at hm ⊢
    tauto)

/-! ## One side's step -/

/-- What the router of a side does to it, when the next message is no Logon. -/
structure Routes (p p' : Party w) : Prop where
  router : p'.router ⊆ p.router
  logon : p'.logon = p.logon
  output : ∀ x ∈ p'.output, x ∈ p.output ∨ x.msgType = '3'
  loggedIn : p'.loggedIn = p.loggedIn
  user : p'.userId = p.userId
  seqNum : p'.seqNum = p.seqNum
  pool : p'.pool = p.pool
  validation : p'.validation = p.validation
  counted : p'.counted = p.counted
  transmitted : p'.transmitted = p.transmitted
  received : p'.received = p.received

/-- What an operation of a logged in side does, in the order of `Op`. -/
inductive Acts (threads : Nat) (ids : String × String) (p : Party w) : Party w → Option Msg → Prop
  | append (t : Char) (other : t ≠ 'A') : Acts threads ids p (p.append t) none
  | take (p' : Party w) (h : p.take threads = some p') : Acts threads ids p p' none
  | stamp (fill : Party w → Header) (k : Nat) (p' : Party w) (h : p.stamp fill k = some p')
      (hids : ((fill p).senderCompId, (fill p).targetCompId) = ids) : Acts threads ids p p' none
  | count (k : Nat) (p' : Party w) (h : p.count k = some p') : Acts threads ids p p' none
  | transmit (k : Nat) (p' : Party w) (out : Msg) (h : p.transmit k = some (p', out)) :
      Acts threads ids p p' (some out)
  | validate (types : List Char) (verify : Party w → Header → Option SessionReject) (p' : Party w)
      (h : p.validate types verify = some p') : Acts threads ids p p' none
  | route (p' : Party w) (h : Routes p p') : Acts threads ids p p' none

theorem Routes.of_append {rest : List Msg} (hr : rest ⊆ p.router) :
    Routes p (({ p with router := rest } : Party w).append '3') where
  router := hr
  logon := rfl
  output x hx := (List.mem_append.1 hx).imp_right fun hx => by rw [List.mem_singleton.1 hx]
  loggedIn := rfl
  user := rfl
  seqNum := rfl
  pool := rfl
  validation := rfl
  counted := rfl
  transmitted := rfl
  received := rfl

theorem Routes.of_handled {rest : List Msg} (hr : rest ⊆ p.router) (handled : List (Msg × String)) :
    Routes p { p with router := rest, handled } :=
  ⟨hr, rfl, fun _ hx => .inl hx, rfl, rfl, rfl, rfl, rfl, rfl, rfl, rfl⟩

theorem Server.route_spec {p p' : Party 32} (h : Server.route p = some p')
    (hr : ∀ msg ∈ p.router, msg.header.msgType ≠ 'A') : Routes p p' := by
  unfold Server.route at h
  split at h
  · cases h
  · rename_i msg rest hrouter
    have hsub : rest ⊆ p.router := hrouter ▸ List.subset_cons_self ..
    rw [if_neg (hr msg (by simp [hrouter]))] at h
    dsimp only at h
    split at h
    · split at h
      · cases h
        exact .of_handled hsub _
      · split at h <;> cases h
        · exact .of_handled hsub _
        · exact .of_append hsub
    · cases h
      exact .of_append hsub

theorem Client.route_spec {p p' : Party 64} (h : Client.route p = some p')
    (hr : ∀ msg ∈ p.router, msg.header.msgType ≠ 'A') : Routes p p' := by
  unfold Client.route at h
  split at h
  · cases h
  · rename_i msg rest hrouter
    have hsub : rest ⊆ p.router := hrouter ▸ List.subset_cons_self ..
    rw [if_neg (hr msg (by simp [hrouter]))] at h
    dsimp only at h
    split at h <;> cases h
    · exact .of_handled hsub _
    · exact .of_append hsub

theorem Server.acts {cfg : Config} {p p' : Party 32} {op : Op} {out : Option Msg}
    (h : Server.run cfg p op = some (p', out)) (ho : ∀ t, op = .append t → t ≠ 'A')
    (hr : ∀ msg ∈ p.router, msg.header.msgType ≠ 'A') (hl : p.logon = []) :
    Acts cfg.threads (cfg.provider, p.userId) p p' out := by
  cases op with
  | append t =>
    cases h
    exact .append t (ho t rfl)
  | transmit k =>
    obtain ⟨⟨p1, msg⟩, hs, he⟩ := Option.map_eq_some_iff.1 h
    cases he
    exact .transmit k _ _ hs
  | logon valid => simp [Server.run, Server.logon, hl] at h
  | _ =>
    obtain ⟨p1, hs, he⟩ := Option.map_eq_some_iff.1 h
    cases he
    first
      | exact .take _ hs
      | exact .stamp _ _ _ hs rfl
      | exact .count _ _ hs
      | exact .validate _ _ _ hs
      | exact .route _ (Server.route_spec hs hr)

theorem Client.acts {cfg : Config} {p p' : Party 64} {op : Op} {out : Option Msg}
    (h : Client.run cfg p op = some (p', out)) (ho : ∀ t, op = .append t → t ≠ 'A')
    (hr : ∀ msg ∈ p.router, msg.header.msgType ≠ 'A') (hl : p.logon = []) :
    Acts 1 (p.userId, cfg.provider) p p' out := by
  cases op with
  | append t =>
    cases h
    exact .append t (ho t rfl)
  | transmit k =>
    obtain ⟨⟨p1, msg⟩, hs, he⟩ := Option.map_eq_some_iff.1 h
    cases he
    exact .transmit k _ _ hs
  | logon valid => simp [Client.run, Client.logon, hl] at h
  | _ =>
    obtain ⟨p1, hs, he⟩ := Option.map_eq_some_iff.1 h
    cases he
    first
      | exact .take _ hs
      | exact .stamp _ _ _ hs rfl
      | exact .count _ _ hs
      | exact .validate _ _ _ hs
      | exact .route _ (Client.route_spec hs hr)

theorem Acts.numbers {threads : Nat} {out : Option Msg} (ha : Acts threads ids p p' out)
    (h : Numbers base userId p) : Numbers base userId p' := by
  cases ha with
  | append t other => exact { h with }
  | take p' hs =>
    obtain ⟨x, rest, -, -, rfl⟩ := take_spec hs h.loggedIn
    exact { h with }
  | stamp fill k p' hs =>
    obtain ⟨x, header, -, -, -, -, -, rfl⟩ := stamp_spec hs
    exact { h with }
  | count k p' hs => exact h.count hs
  | transmit k p' out hs =>
    obtain ⟨msg, -, -, rfl⟩ := transmit_spec hs
    exact { h with }
  | validate types verify p' hs =>
    obtain ⟨msg, rest, -, rfl | ⟨-, rfl⟩⟩ := validate_spec hs
    · exact { h with }
    · exact { h with }
  | route p' hs => exact h.keep hs.loggedIn hs.user hs.seqNum hs.counted hs.received

/-- The side that acts is the sender. -/
theorem Acts.sender {threads : Nat} {out : Option Msg} (ha : Acts threads ids p p' out)
    (hw : 32 ≤ w) (hp : Numbers base userId p) (hseen : p.received ≤ q.counted)
    (h : Flow base ids p ch q) : Flow base ids p' (ch ++ out.toList) q := by
  cases ha with
  | append t other =>
    rw [Option.toList_none, List.append_nil]
    refine h.sender (fun x hx => ?_) rfl rfl rfl
    rcases List.mem_append.1 hx with hx | hx
    · exact h.output x hx
    · rw [List.mem_singleton.1 hx]
      exact other
  | take p' hs => simpa using h.take hp hs
  | stamp fill k p' hs hids => simpa using h.stamp hw hp hids hseen hs
  | count k p' hs => simpa using h.count hs
  | transmit k p' out hs => exact h.transmit hs
  | validate types verify p' hs =>
    rw [Option.toList_none, List.append_nil]
    obtain ⟨msg, rest, -, rfl | ⟨-, rfl⟩⟩ := validate_spec hs
    · refine h.sender (fun x hx => ?_) rfl rfl rfl
      rcases List.mem_append.1 hx with hx | hx
      · exact h.output x hx
      · rw [List.mem_singleton.1 hx]
        show '3' ≠ 'A'
        decide
    · exact h.sender h.output rfl rfl rfl
  | route p' hs =>
    rw [Option.toList_none, List.append_nil]
    refine h.sender (fun x hx => ?_) hs.pool hs.counted hs.transmitted
    rcases hs.output x hx with hx | hx
    · exact h.output x hx
    · rw [hx]
      decide

/-- The side that acts is the receiver. -/
theorem Acts.receiver {threads : Nat} {out : Option Msg} (ha : Acts threads ids q q' out)
    (hq : q.loggedIn = true) {ids' : String × String} (h : Flow base ids' p ch q) :
    Flow base ids' p ch q' := by
  cases ha with
  | append t other => exact h.receiver rfl rfl rfl rfl (Nat.le_refl _)
  | take p' hs =>
    obtain ⟨x, rest, -, -, rfl⟩ := take_spec hs hq
    exact h.receiver rfl rfl rfl rfl (Nat.le_refl _)
  | stamp fill k p' hs =>
    obtain ⟨x, header, -, -, -, -, -, rfl⟩ := stamp_spec hs
    exact h.receiver rfl rfl rfl rfl (Nat.le_refl _)
  | count k p' hs =>
    obtain ⟨msg, -, rfl⟩ := count_spec hs
    exact h.receiver rfl rfl rfl rfl (Nat.le_succ _)
  | transmit k p' out hs =>
    obtain ⟨msg, -, -, rfl⟩ := transmit_spec hs
    exact h.receiver rfl rfl rfl rfl (Nat.le_refl _)
  | validate types verify p' hs => exact h.validate hs
  | route p' hs => exact h.route hs.router _ hs.validation rfl hs.logon hs.received hs.counted

theorem Acts.turn_sender {out : Option Msg} (ha : Acts 1 ids p p' out) (hp : Numbers base userId p)
    {ids' : String × String} (hf : Flow base ids' p ch q) (h : Turn p ch q) :
    Turn p' (ch ++ out.toList) q := by
  cases ha with
  | append t other =>
    rw [Option.toList_none, List.append_nil]
    exact h.of_pool rfl rfl (List.Subset.refl _)
  | take p' hs => simpa using h.take hp hs
  | stamp fill k p' hs hids => simpa using h.stamp hf hs
  | count k p' hs => simpa using h.count hs
  | transmit k p' out hs => exact h.transmit hs
  | validate types verify p' hs =>
    rw [Option.toList_none, List.append_nil]
    obtain ⟨msg, rest, -, rfl | ⟨-, rfl⟩⟩ := validate_spec hs
    · exact h.of_pool rfl rfl (List.Subset.refl _)
    · exact h.of_pool rfl rfl (List.Subset.refl _)
  | route p' hs =>
    rw [Option.toList_none, List.append_nil]
    exact h.of_pool hs.pool hs.transmitted (List.Subset.refl _)

theorem Acts.turn_receiver {threads : Nat} {out : Option Msg} (ha : Acts threads ids q q' out)
    (hq : q.loggedIn = true) (h : Turn p ch q) : Turn p ch q' := by
  refine h.of_pool rfl rfl ?_
  cases ha with
  | append t other => exact List.Subset.refl _
  | take p' hs =>
    obtain ⟨x, rest, -, -, rfl⟩ := take_spec hs hq
    exact List.Subset.refl _
  | stamp fill k p' hs =>
    obtain ⟨x, header, -, -, -, -, -, rfl⟩ := stamp_spec hs
    exact List.Subset.refl _
  | count k p' hs =>
    obtain ⟨msg, -, rfl⟩ := count_spec hs
    exact List.Subset.refl _
  | transmit k p' out hs =>
    obtain ⟨msg, -, -, rfl⟩ := transmit_spec hs
    exact List.Subset.refl _
  | validate types verify p' hs =>
    obtain ⟨msg, rest, hval, rfl | ⟨-, rfl⟩⟩ := validate_spec hs
    · exact hval ▸ List.subset_cons_self ..
    · exact hval ▸ List.subset_cons_self ..
  | route p' hs => exact hs.validation ▸ List.Subset.refl _

theorem Flow.received_le (h : Flow base ids p ch q) : q.received ≤ p.counted := by
  have h1 := h.counted
  have h2 := h.wire
  omega

/-! ## The session -/

structure Agree (cfg : Config) (base : Nat) (userId : String) (m : Session) : Prop where
  server : Numbers base userId m.server
  client : Numbers base userId m.client
  down : Flow base (cfg.provider, userId) m.server m.toClient m.client
  up : Flow base (userId, cfg.provider) m.client m.toServer m.server
  turnDown : cfg.threads = 1 → Turn m.server m.toClient m.client
  turnUp : Turn m.client m.toServer m.server

variable {cfg : Config} {m m' : Session}

theorem Agree.step {a : Action} (h : Agree cfg base userId m) (ho : Ordinary a)
    (hs : step cfg m a = some m') : Agree cfg base userId m' := by
  cases a with
  | front => exact ho.elim
  | server op =>
    obtain ⟨⟨p, out⟩, hrun, he⟩ := Option.map_eq_some_iff.1 hs
    cases he
    have ha := Server.acts hrun (fun t ht => by subst ht; exact ho) h.up.router h.up.logon
    have hids : (cfg.provider, m.server.userId) = (cfg.provider, userId) := by rw [h.server.user]
    exact ⟨ha.numbers h.server, h.client,
      (hids ▸ ha).sender (Nat.le_refl _) h.server h.up.received_le h.down,
      ha.receiver h.server.loggedIn h.up,
      fun h1 => (h1 ▸ ha).turn_sender h.server h.down (h.turnDown h1),
      ha.turn_receiver h.server.loggedIn h.turnUp⟩
  | client op =>
    obtain ⟨⟨p, out⟩, hrun, he⟩ := Option.map_eq_some_iff.1 hs
    cases he
    have ha := Client.acts hrun (fun t ht => by subst ht; exact ho) h.down.router h.down.logon
    have hids : (m.client.userId, cfg.provider) = (userId, cfg.provider) := by rw [h.client.user]
    exact ⟨h.server, ha.numbers h.client, ha.receiver h.client.loggedIn h.down,
      (hids ▸ ha).sender (by omega) h.client h.down.received_le h.up,
      fun h1 => ha.turn_receiver h.client.loggedIn (h.turnDown h1),
      ha.turn_sender h.client h.up h.turnUp⟩
  | serverReceive =>
    simp only [Session.step] at hs
    split at hs
    · cases hs
    · rename_i msg rest hch
      cases hs
      have hup := h.up
      have hturn := h.turnUp
      rw [hch] at hup hturn
      exact ⟨h.server.receive msg, h.client,
        h.down.sender h.down.output rfl rfl rfl, hup.receive,
        fun h1 => (h.turnDown h1).of_pool rfl rfl (List.Subset.refl _), hturn.receive⟩
  | clientReceive =>
    simp only [Session.step] at hs
    split at hs
    · cases hs
    · rename_i msg rest hch
      cases hs
      have hdown := h.down
      rw [hch] at hdown
      refine ⟨h.server, h.client.receive msg, hdown.receive, h.up.sender h.up.output rfl rfl rfl,
        fun h1 => ?_, h.turnUp.of_pool rfl rfl (List.Subset.refl _)⟩
      have hturn := h.turnDown h1
      rw [hch] at hturn
      exact hturn.receive

theorem Agree.loggedOn {seqNum : BitVec 32} (hb : seqNum.toNat + 3 < 2 ^ 32) :
    Agree cfg (seqNum.toNat + 1) userId (loggedOn userId seqNum) := by
  have hnum : seqNum + 3 = BitVec.ofNat 32 (seqNum.toNat + 1 + 1 + 1) := by
    rw [show seqNum.toNat + 1 + 1 + 1 = seqNum.toNat + 3 from rfl, BitVec.ofNat_add _ 3]
    simp
  have hflow : ∀ {w v : Nat} (ids : String × String) (a : BitVec w) (b : BitVec v),
      Flow (seqNum.toNat + 1) ids
        { (Party.new a : Party w) with
          loggedIn := true, userId, seqNum := a, appended := 1, counted := 1, transmitted := 1
          received := 1 } []
        { (Party.new b : Party v) with
          loggedIn := true, userId, seqNum := b, appended := 1, counted := 1, transmitted := 1
          received := 1 } := fun ids a b =>
    { output := nofun, taken := nofun, counted := rfl, wire := rfl, fits := nofun, nths := rfl,
      late := nofun, router := nofun, logon := rfl }
  refine ⟨⟨rfl, rfl, hnum⟩, ⟨rfl, rfl, ?_⟩, hflow _ _ _, hflow _ _ _, fun _ => ?_, ?_⟩
  · show (seqNum + 3).setWidth 64 = _
    rw [hnum, BitVec.setWidth_ofNat_of_le_of_lt (by omega) hb]
    rfl
  · exact ⟨Nat.zero_le _, by simp [Session.loggedOn, Party.new], by simp [Session.loggedOn, Party.new]⟩
  · exact ⟨Nat.zero_le _, by simp [Session.loggedOn, Party.new], by simp [Session.loggedOn, Party.new]⟩

/-! ## The Logon exchange -/

/-- The client's Logon. -/
def request (cfg : Config) (userId : String) (seqNum : BitVec 32) : Msg where
  header := ⟨"FIX.4.2", 'A', (seqNum.setWidth 64 + 1#64).setWidth 32, userId, cfg.provider⟩
  nth := 1

/-- The server once it has logged the user in. -/
def admitted (userId : String) (seqNum : BitVec 32) : Party 32 :=
  { Party.new (seqNum + 2) with
    loggedIn := true, userId, output := [⟨'A', 0⟩], appended := 1, received := 1 }

/-- The server's Logon. -/
def answer (cfg : Config) (userId : String) (seqNum : BitVec 32) : Msg where
  header := ⟨"FIX.4.2", 'A', seqNum + 2, cfg.provider, userId⟩
  seen := 1
  nth := 1

theorem request_sent (cfg : Config) (userId : String) (seqNum : BitVec 32) :
    Trans.exec (step cfg) (fun _ _ => True) start
      ([.front userId seqNum] ++ sendOps.map .client) =
    some ⟨.new 0, { Party.new (seqNum.setWidth 64 + 1 + 1) with
      userId, appended := 1, counted := 1, transmitted := 1 }, [], [request cfg userId seqNum]⟩ := by
  simp [sendOps, Trans.exec, Session.step, Client.run, start, request, Client.buildLogon, Party.new,
    Party.append, Party.setSeqNumber, Party.take, Party.stamp, Party.count, Party.transmit,
    Party.nextSeqNumber, Client.fill]

theorem request_taken (client : Party 64) (userId : String) (seqNum : BitVec 32) :
    Trans.exec (step cfg) (fun _ _ => True) ⟨.new 0, client, [], [request cfg userId seqNum]⟩
      [.serverReceive, .server .validate, .server .route, .server (.logon true)] =
    some ⟨admitted userId seqNum, client, [], []⟩ := by
  have hseq : (seqNum.setWidth 64 + 1#64).setWidth 32 + 1#32 = seqNum + 2#32 := by
    rw [BitVec.setWidth_add _ _ (by omega), BitVec.add_assoc]
    simp
  simp [Trans.exec, Session.step, Server.run, request, admitted, Party.new, Party.append,
    Party.setSeqNumber, Party.receive, Party.validate, verifyPositionValue, Server.types,
    Server.verifyUserSpecific, Server.route, Server.logon, Party.login, hseq]

theorem answer_sent (ht : 0 < cfg.threads) (client : Party 64) (userId : String)
    (seqNum : BitVec 32) :
    Trans.exec (step cfg) (fun _ _ => True) ⟨admitted userId seqNum, client, [], []⟩
      (sendOps.map .server) =
    some ⟨(loggedOn userId seqNum).server, client, [answer cfg userId seqNum], []⟩ := by
  have hseq : seqNum + 2#32 + 1#32 = seqNum + 3#32 := by
    rw [BitVec.add_assoc]
    rfl
  simp [sendOps, Trans.exec, Session.step, Server.run, admitted, answer, loggedOn, ht, Party.new,
    Party.take, Party.stamp, Party.count, Party.transmit, Party.nextSeqNumber, Server.fill, hseq]

theorem answer_taken (server : Party 32) (userId : String) (n : BitVec 64) (seqNum : BitVec 32) :
    Trans.exec (step cfg) (fun _ _ => True)
      ⟨server, { Party.new n with userId, appended := 1, counted := 1, transmitted := 1 },
        [answer cfg userId seqNum], []⟩
      [.clientReceive, .client .validate, .client .route, .client (.logon true)] =
    some ⟨server, (loggedOn userId seqNum).client, [], []⟩ := by
  have hseq : seqNum + 2#32 + 1#32 = seqNum + 3#32 := by
    rw [BitVec.add_assoc]
    rfl
  simp [Trans.exec, Session.step, Client.run, answer, loggedOn, Party.new, Party.setSeqNumber,
    Party.receive, Party.validate, verifyPositionValue, Client.types, Client.verifyUserSpecific,
    Client.route, Client.logon, Party.login, hseq]

/-- What the Logon exchange leads to. -/
theorem logonExchange_loggedOn (ht : 0 < cfg.threads) (userId : String) (seqNum : BitVec 32) :
    Trans.exec (step cfg) (fun _ _ => True) start (logonExchange userId seqNum) =
      some (loggedOn userId seqNum) := by
  have h₁ := (Trans.exec_append (request_sent cfg userId seqNum)).trans
    (request_taken _ userId seqNum)
  have h₂ := (Trans.exec_append h₁).trans (answer_sent ht _ userId seqNum)
  exact (Trans.exec_append h₂).trans (answer_taken _ userId _ seqNum)

/-! ## Which messages fail the check -/

theorem Agree.fits_small (h : Agree cfg base userId m)
    (small : base + m.server.counted + m.client.counted < 2 ^ 32) :
    base + m.server.counted + m.server.received < 2 ^ 32 ∧
      base + m.client.counted + m.client.received < 2 ^ 32 := by
  have h1 := h.down.received_le
  have h2 := h.up.received_le
  omega

theorem Agree.client_check (h : Agree cfg base userId m)
    (small : base + m.server.counted + m.client.counted < 2 ^ 32) {msg : Msg} {rest : List Msg}
    (hval : m.client.validation = msg :: rest) (turn : cfg.threads = 1 ∨ msg.InTurn) :
    Client.verifyUserSpecific cfg.provider m.client msg.header =
      if m.client.Crossed msg ∨ m.client.Late msg then some (seqNumReject msg.header) else none := by
  have hmem : msg ∈ m.client.validation := by simp [hval]
  have hfits := h.down.fits msg (List.mem_append_right _ hmem)
  have hlate := h.down.late msg hmem
  have hturn : msg.InTurn := by
    rcases turn with h1 | ht
    · exact (h.turnDown h1).wire msg (List.mem_append_right _ hmem)
    · exact ht
  have hids := hfits.ids
  obtain ⟨hsender, htarget⟩ := Prod.mk.inj hids
  have hseen := hfits.seen
  have hafter := hfits.after
  have hreceived := (h.fits_small small).2
  have hcheck := seqnum_check (by omega) h.client hfits.seqNum (by omega) hreceived (by omega)
  unfold Client.verifyUserSpecific
  simp only [hsender, htarget, h.client.loggedIn, h.client.user, ne_eq, not_true_eq_false, if_false,
    if_true, hcheck]
  split <;> split <;> first | rfl | omega

theorem Agree.server_check (h : Agree cfg base userId m)
    (small : base + m.server.counted + m.client.counted < 2 ^ 32) {msg : Msg} {rest : List Msg}
    (hval : m.server.validation = msg :: rest) :
    Server.verifyUserSpecific cfg.provider m.server msg.header =
      if m.server.Crossed msg ∨ m.server.Late msg then some (seqNumReject msg.header) else none := by
  have hmem : msg ∈ m.server.validation := by simp [hval]
  have hfits := h.up.fits msg (List.mem_append_right _ hmem)
  have hlate := h.up.late msg hmem
  have hturn : msg.InTurn := h.turnUp.wire msg (List.mem_append_right _ hmem)
  have hids := hfits.ids
  obtain ⟨hsender, htarget⟩ := Prod.mk.inj hids
  have hseen := hfits.seen
  have hafter := hfits.after
  have hreceived := (h.fits_small small).1
  have hcheck := seqnum_check (by omega) h.server hfits.seqNum (by omega) hreceived (by omega)
  rw [BitVec.setWidth_eq] at hcheck
  unfold Server.verifyUserSpecific
  simp only [hsender, htarget, h.server.loggedIn, h.server.user, ne_eq, not_true_eq_false, if_false,
    if_true, hcheck]
  split <;> split <;> first | rfl | omega

theorem agree_of_run {seqNum : BitVec 32}
    (h : Trans.Run (step cfg) (fun _ a => Ordinary a) (loggedOn userId seqNum) m)
    (hb : seqNum.toNat + 3 < 2 ^ 32) : Agree cfg (seqNum.toNat + 1) userId m :=
  h.invariant (.loggedOn hb) fun _ _ _ hI ho hs => hI.step ho hs

/-- **Which messages fail the check.** The Logon exchange leads both sides to one number; from then
on, as long as the numbers in use stay below `2 ^ 32`, in every interleaving a message fails the
`MsgSeqNum` check of the other side exactly if it crossed a message of the other direction, or was
checked after a later one was received. Of the server's messages this is said of those its output
threads stamped in turn: all, if there is one thread. -/
theorem seqnum_checks (cfg : Config) (ht : 0 < cfg.threads) (userId : String) (seqNum : BitVec 32) :
    Trans.exec (step cfg) (fun _ _ => True) start (logonExchange userId seqNum) =
      some (loggedOn userId seqNum) ∧
    ∀ m : Session, Trans.Run (step cfg) (fun _ a => Ordinary a) (loggedOn userId seqNum) m →
      seqNum.toNat + 3 + m.sinceLogon < 2 ^ 32 →
      (∀ msg rest, m.client.validation = msg :: rest → (cfg.threads = 1 ∨ msg.InTurn) →
        Client.verifyUserSpecific cfg.provider m.client msg.header =
          if m.client.Crossed msg ∨ m.client.Late msg then some (seqNumReject msg.header)
          else none) ∧
      ∀ msg rest, m.server.validation = msg :: rest →
        Server.verifyUserSpecific cfg.provider m.server msg.header =
          if m.server.Crossed msg ∨ m.server.Late msg then some (seqNumReject msg.header)
          else none := by
  refine ⟨logonExchange_loggedOn ht userId seqNum, fun m hrun hsmall => ?_⟩
  have h := agree_of_run hrun (by omega)
  have small : seqNum.toNat + 1 + m.server.counted + m.client.counted < 2 ^ 32 := by
    unfold sinceLogon at hsmall
    omega
  exact ⟨fun _ _ hval hturn => h.client_check small hval hturn,
    fun _ _ hval => h.server_check small hval⟩

/-! ## Runs -/

/-- One message of the server goes out. -/
def serverSend : List Action := .server (.append '8') :: sendOps.map .server

def clientSend : List Action := .client (.append 'D') :: sendOps.map .client

/-- Two threads of the output pool stamp before either counts. -/
def stampedTwice : List Action :=
  [.append '8', .append '8', .take, .take, .stamp 0, .stamp 1, .count 0, .count 1, .transmit 0,
    .transmit 0].map .server

/-- How the client's check of the next message ends, and whether the message crossed another or is
late. -/
def clientVerdict (cfg : Config) (m : Session) : Option (Option SessionReject × Bool × Bool) :=
  m.client.validation.head?.map fun msg =>
    (Client.verifyUserSpecific cfg.provider m.client msg.header, m.client.Crossed msg,
      m.client.Late msg)

/-- Messages that fail the check: one that crosses a message of the client, one that is checked when
the next has been received, the second of two stamped with one number, and the first after the
32-bit counter of the server has passed its end. -/
theorem seqnum_refused : ∃ m₁ m₂ m₃ m₄ : Session,
    (∀ m ∈ [m₁, m₂, m₃],
      Trans.Run (step ⟨"EX", 10⟩) (fun _ a => Ordinary a) (loggedOn "A" 1) m) ∧
    Trans.Run (step ⟨"EX", 10⟩) (fun _ a => Ordinary a) (loggedOn "A" 4294967292) m₄ ∧
    (∃ header, m₁.clientVerdict ⟨"EX", 10⟩ = some (some (seqNumReject header), true, false)) ∧
    (∃ header, m₂.clientVerdict ⟨"EX", 10⟩ = some (some (seqNumReject header), false, true)) ∧
    (∃ header, m₃.clientVerdict ⟨"EX", 10⟩ = some (some (seqNumReject header), false, false)) ∧
    ∃ header, m₄.clientVerdict ⟨"EX", 10⟩ = some (some (seqNumReject header), false, false) := by
  have h₁ : (Trans.exec (step ⟨"EX", 10⟩) (fun _ a => Ordinary a) (loggedOn "A" 1)
      (serverSend ++ clientSend ++ [.clientReceive])).map (clientVerdict ⟨"EX", 10⟩) =
      some (some (some (seqNumReject ⟨"FIX.4.2", '8', 4, "EX", "A"⟩), true, false)) := by
    decide +kernel
  have h₂ : (Trans.exec (step ⟨"EX", 10⟩) (fun _ a => Ordinary a) (loggedOn "A" 1)
      (serverSend ++ serverSend ++ [.clientReceive, .clientReceive])).map
      (clientVerdict ⟨"EX", 10⟩) =
      some (some (some (seqNumReject ⟨"FIX.4.2", '8', 4, "EX", "A"⟩), false, true)) := by
    decide +kernel
  have h₃ : (Trans.exec (step ⟨"EX", 10⟩) (fun _ a => Ordinary a) (loggedOn "A" 1)
      (stampedTwice ++ [.clientReceive, .client .validate, .clientReceive])).map
      (clientVerdict ⟨"EX", 10⟩) =
      some (some (some (seqNumReject ⟨"FIX.4.2", '8', 4, "EX", "A"⟩), false, false)) := by
    decide +kernel
  have h₄ : (Trans.exec (step ⟨"EX", 10⟩) (fun _ a => Ordinary a) (loggedOn "A" 4294967292)
      (serverSend ++ [.clientReceive, .client .validate] ++ serverSend ++ [.clientReceive])).map
      (clientVerdict ⟨"EX", 10⟩) =
      some (some (some (seqNumReject ⟨"FIX.4.2", '8', 0, "EX", "A"⟩), false, false)) := by
    decide +kernel
  obtain ⟨m₁, hm₁, h₁⟩ := Option.map_eq_some_iff.1 h₁
  obtain ⟨m₂, hm₂, h₂⟩ := Option.map_eq_some_iff.1 h₂
  obtain ⟨m₃, hm₃, h₃⟩ := Option.map_eq_some_iff.1 h₃
  obtain ⟨m₄, hm₄, h₄⟩ := Option.map_eq_some_iff.1 h₄
  refine ⟨m₁, m₂, m₃, m₄, ?_, .of_exec .start hm₄, ⟨_, h₁⟩, ⟨_, h₂⟩, ⟨_, h₃⟩, ⟨_, h₄⟩⟩
  simp only [List.forall_mem_cons, List.not_mem_nil, false_implies, implies_true, and_true]
  exact ⟨.of_exec .start hm₁, .of_exec .start hm₂, .of_exec .start hm₃⟩

/-- In a session of two messages, one each way, neither fails. -/
theorem seqnum_checks_run : ∃ m m' : Session, ∃ msg msg',
    m.client.validation = [msg] ∧ m'.server.validation = [msg'] ∧
    Client.verifyUserSpecific "EX" m.client msg.header = none ∧
    Server.verifyUserSpecific "EX" m'.server msg'.header = none := by
  let down : List Action := serverSend ++ [.clientReceive]
  let up : List Action := down ++ [.client .validate] ++ clientSend ++ [.serverReceive]
  have h : (Trans.exec (step ⟨"EX", 10⟩) (fun _ a => Ordinary a) (loggedOn "A" 1) down).map
      (fun m => (m.client.validation, m.sinceLogon, m.client.counted, m.client.received)) =
      some ([{ header := ⟨"FIX.4.2", '8', 4, "EX", "A"⟩, place := 1, after := 1, seen := 1, nth := 2 }],
        1, 1, 2) := by decide +kernel
  have h' : (Trans.exec (step ⟨"EX", 10⟩) (fun _ a => Ordinary a) (loggedOn "A" 1) up).map
      (fun m => (m.server.validation, m.sinceLogon, m.server.counted, m.server.received)) =
      some ([{ header := ⟨"FIX.4.2", 'D', 5, "A", "EX"⟩, place := 1, after := 1, seen := 2, nth := 2 }],
        2, 2, 2) := by decide +kernel
  obtain ⟨m, hm, h⟩ := Option.map_eq_some_iff.1 h
  obtain ⟨m', hm', h'⟩ := Option.map_eq_some_iff.1 h'
  simp only [Prod.mk.injEq] at h h'
  obtain ⟨hval, hsince, hcounted, hreceived⟩ := h
  obtain ⟨hval', hsince', hcounted', hreceived'⟩ := h'
  have hc := ((seqnum_checks ⟨"EX", 10⟩ (by decide) "A" 1).2 m (.of_exec .start hm)
    (by rw [hsince]; decide)).1 _ _ hval (.inr rfl)
  have hs := ((seqnum_checks ⟨"EX", 10⟩ (by decide) "A" 1).2 m' (.of_exec .start hm')
    (by rw [hsince']; decide)).2 _ _ hval'
  refine ⟨m, m', _, _, hval, hval', hc.trans (if_neg ?_), hs.trans (if_neg ?_)⟩
  · simp [Party.Crossed, Party.Late, hcounted, hreceived]
  · simp [Party.Crossed, Party.Late, hcounted', hreceived']

end Session

end Fix42
