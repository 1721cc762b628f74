import Fix42.Session.Connection
import Fix42.Session.Proof.Units

/-!
# What the handlers are given

A message that waits for the router of a logged in client was checked against that client
(`Checked`), unless it was validated before the login: `handled_checked` is the run theorem under
`QuietLogon`, `handled_unchecked` a message that slips through.
-/

namespace Fix42

namespace Connection

open Session

variable {cfg : Config} {c c' : Connection}

/-- `msg` was validated in the session of `userId`, and its number compared with the counter. -/
def Checked (userId : String) (msg : Msg) : Prop :=
  msg.header.senderCompId = userId ∧ ∃ seqNum : BitVec 32,
    msg.checked = some (userId, seqNum.toNat) ∧ msg.header.msgSeqNum = seqNum - 1

/-- The invariant: what waits for the router, and what the handlers were given, is checked. -/
structure Guarded (c : Connection) : Prop where
  router : c.server.loggedIn = true → ∀ msg ∈ c.server.router,
    msg.header.msgType ∈ Server.handlerTypes → Checked c.server.userId msg
  handled : ∀ x ∈ c.server.handled, Checked x.2 x.1

theorem Guarded.keep (h : Guarded c) (loggedIn : c'.server.loggedIn = c.server.loggedIn)
    (user : c'.server.userId = c.server.userId) (router : c'.server.router ⊆ c.server.router)
    (handled : c'.server.handled = c.server.handled) : Guarded c' where
  router hl msg hm ht := by
    rw [user]
    exact h.router (loggedIn ▸ hl) msg (router hm) ht
  handled := handled ▸ h.handled

/-- A message the header validation of a logged in client accepts is checked. -/
theorem checked_of_verify {provider : String} {p : Party 32} {msg : Msg} (hl : p.loggedIn = true)
    (h : Server.verifyUserSpecific provider p msg.header = none) :
    Checked p.userId { msg with checked := some (p.userId, p.seqNum.toNat) } := by
  unfold Server.verifyUserSpecific at h
  rw [if_pos hl] at h
  split at h
  · cases h
  · split at h
    · cases h
    · rename_i hsender
      split at h
      · cases h
      · rename_i hseq
        exact ⟨not_not.1 hsender, p.seqNum, rfl, not_not.1 hseq⟩

theorem Guarded.validate {provider : String} {p' : Party 32} (h : Guarded c)
    (hs : c.server.validate Server.types (Server.verifyUserSpecific provider) = some p') :
    Guarded { c with server := p' } := by
  obtain ⟨msg, rest, -, rfl | ⟨hver, rfl⟩⟩ := validate_spec hs
  · exact h.keep rfl rfl (List.Subset.refl _) rfl
  · refine ⟨fun hl m hm ht => ?_, h.handled⟩
    rcases List.mem_append.1 hm with hm | hm
    · exact h.router hl m hm ht
    · have hl' : c.server.loggedIn = true := hl
      rw [List.mem_singleton.1 hm, if_pos hl']
      exact checked_of_verify hl' hver

theorem Guarded.route {p' : Party 32} (h : Guarded c) (hs : Server.route c.server = some p') :
    Guarded { c with server := p' } := by
  unfold Server.route at hs
  split at hs
  · cases hs
  · rename_i msg rest hrouter
    have hsub : rest ⊆ c.server.router := hrouter ▸ List.subset_cons_self ..
    have hmsg : msg ∈ c.server.router := by simp [hrouter]
    dsimp only at hs
    split at hs
    · cases hs
      exact h.keep rfl rfl hsub rfl
    · split at hs
      · rename_i hl
        split at hs
        · rename_i htype
          cases hs
          refine ⟨fun hl m hm ht => h.router hl m (hsub hm) ht, fun x hx => ?_⟩
          rcases List.mem_append.1 hx with hx | hx
          · exact h.handled x hx
          · rw [List.mem_singleton.1 hx]
            exact h.router hl msg hmsg htype
        · split at hs <;> cases hs <;> exact h.keep rfl rfl hsub rfl
      · cases hs
        exact h.keep rfl rfl hsub rfl

theorem Guarded.logon {valid : Bool} {p' : Party 32} (h : Guarded c)
    (quiet : QuietLogon c (.unit (.logon valid))) (hs : Server.logon valid c.server = some p') :
    Guarded { c with server := p' } := by
  unfold Server.logon at hs
  split at hs
  · cases hs
  · rename_i msg rest hlogon
    dsimp only at hs
    split at hs <;> rename_i hv
    · cases hs
      exact h.keep rfl rfl (List.Subset.refl _) rfl
    · cases hs
      have hlog : (c.loggingIn (.unit (.logon valid))).isSome = true := by
        cases valid <;> simp_all [loggingIn]
      exact ⟨fun _ m hm ht => absurd ht (quiet hlog m hm), h.handled⟩

theorem Guarded.step {a : Action} (h : Guarded c) (quiet : QuietLogon c a)
    (hs : step cfg c a = some c') : Guarded c' := by
  cases a with
  | deliver header =>
    cases hs
    exact h.keep rfl rfl (List.Subset.refl _) rfl
  | unit op =>
    obtain ⟨⟨p', out⟩, hrun, he⟩ := Option.map_eq_some_iff.1 hs
    cases he
    cases op with
    | append t =>
      cases hrun
      exact h.keep rfl rfl (List.Subset.refl _) rfl
    | take =>
      obtain ⟨p1, ht, he⟩ := Option.map_eq_some_iff.1 hrun
      cases he
      unfold Party.take at ht
      split at ht
      · cases ht
      · split at ht
        · cases ht
          refine h.keep ?_ ?_ ?_ ?_ <;> dsimp only <;> split <;> first | rfl | exact List.Subset.refl _
        · cases ht
    | stamp k =>
      obtain ⟨p1, ht, he⟩ := Option.map_eq_some_iff.1 hrun
      cases he
      obtain ⟨x, header, -, -, -, -, -, rfl⟩ := stamp_spec ht
      exact h.keep rfl rfl (List.Subset.refl _) rfl
    | count k =>
      obtain ⟨p1, ht, he⟩ := Option.map_eq_some_iff.1 hrun
      cases he
      obtain ⟨msg, -, rfl⟩ := count_spec ht
      exact h.keep rfl rfl (List.Subset.refl _) rfl
    | transmit k =>
      obtain ⟨⟨p1, msg⟩, ht, he⟩ := Option.map_eq_some_iff.1 hrun
      cases he
      obtain ⟨msg, -, -, rfl⟩ := transmit_spec ht
      exact h.keep rfl rfl (List.Subset.refl _) rfl
    | validate =>
      obtain ⟨p1, ht, he⟩ := Option.map_eq_some_iff.1 hrun
      cases he
      exact (h.validate ht).keep rfl rfl (List.Subset.refl _) rfl
    | route =>
      obtain ⟨p1, ht, he⟩ := Option.map_eq_some_iff.1 hrun
      cases he
      exact (h.route ht).keep rfl rfl (List.Subset.refl _) rfl
    | logon valid =>
      obtain ⟨p1, ht, he⟩ := Option.map_eq_some_iff.1 hrun
      cases he
      exact (h.logon quiet ht).keep rfl rfl (List.Subset.refl _) rfl

/-- **Only checked messages reach the handlers**, in every run in which a client is logged in only
when no other message that was validated before waits for the router. -/
theorem handled_checked (cfg : Config) {c : Connection}
    (h : Trans.Run (Connection.step cfg) QuietLogon new c) :
    ∀ x ∈ c.server.handled, Checked x.2 x.1 :=
  (h.invariant ⟨nofun, nofun⟩ fun _ _ _ hI hq hs => Guarded.step hI hq hs).handled

/-! ## Two runs -/

/-- A logon and an order right behind it, both validated before the logon is acted on. -/
def pipelined : List Action :=
  [.deliver ⟨"FIX.4.2", 'A', 1, "A", "EX"⟩, .deliver ⟨"FIX.4.2", 'D', 77, "B", "EX"⟩,
    .unit .validate, .unit .validate, .unit .route, .unit (.logon true), .unit .route]

/-- The same two messages, the second received when the client is logged in. -/
def inTurn : List Action :=
  [.deliver ⟨"FIX.4.2", 'A', 1, "A", "EX"⟩, .unit .validate, .unit .route, .unit (.logon true),
    .deliver ⟨"FIX.4.2", 'D', 2, "A", "EX"⟩, .unit .validate, .unit .route]

/-- The order of another user reaches the market in the session of `A`, with a number nobody looked
at. -/
theorem handled_unchecked : ∃ c : Connection, Trans.Reach (step ⟨"EX", 10⟩) new c ∧
    ∃ msg, c.server.handled = [(msg, "A")] ∧ msg.header = ⟨"FIX.4.2", 'D', 77, "B", "EX"⟩ ∧
      msg.checked = none ∧ ¬ Checked "A" msg := by
  have h : (Trans.exec (step ⟨"EX", 10⟩) (fun _ _ => True) new pipelined).map
      (fun c => c.server.handled) =
      some [({ header := ⟨"FIX.4.2", 'D', 77, "B", "EX"⟩ }, "A")] := by decide +kernel
  obtain ⟨c, hc, h⟩ := Option.map_eq_some_iff.1 h
  exact ⟨c, .of_exec .start hc, _, h, rfl, rfl, fun hch => absurd hch.1 (by decide)⟩

theorem handled_checked_run : ∃ c : Connection, ∃ msg,
    c.server.handled = [(msg, "A")] ∧ Checked "A" msg := by
  have h : (Trans.exec (step ⟨"EX", 10⟩) QuietLogon new inTurn).map (fun c => c.server.handled) =
      some [({ header := ⟨"FIX.4.2", 'D', 2, "A", "EX"⟩, checked := some ("A", 3) }, "A")] := by
    decide +kernel
  obtain ⟨c, hc, h⟩ := Option.map_eq_some_iff.1 h
  have hall := handled_checked ⟨"EX", 10⟩ (.of_exec .start hc)
  rw [h] at hall
  exact ⟨c, _, h, hall _ (List.mem_singleton_self _)⟩

end Connection

end Fix42
