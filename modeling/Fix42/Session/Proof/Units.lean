import Fix42.Session.Party

/-!
# What the units of one side do

One lemma for each operation of the output pool and for the header validation (`take_spec`,
`stamp_spec`, `count_spec`, `transmit_spec`, `validate_spec`).
-/

namespace Fix42

namespace Session

variable {w : Nat} {p p' : Party w}

/-! ## The output pool -/

def Task.msg? : Task → Option Msg
  | .taken _ => none
  | .stamped msg | .counted msg => some msg

/-- The one task of a pool. -/
theorem pool_single {k : Nat} {t : Task} {l : List Task} (hl : l.length ≤ 1) (hk : l[k]? = some t) :
    l = [t] ∧ k = 0 := by
  match l, k, hl, hk with
  | [a], 0, _, hk => exact ⟨by rw [Option.some.inj hk], rfl⟩
  | [a], k + 1, _, hk => simp at hk

theorem take_spec {n : Nat} (h : p.take n = some p') (logged : p.loggedIn = true) :
    ∃ x rest, p.output = x :: rest ∧ p.pool.length < n ∧
      p' = { p with output := rest, pool := p.pool ++ [.taken x] } := by
  unfold Party.take at h
  split at h
  · cases h
  · rename_i x rest houtput
    split at h
    · rename_i hlen
      cases h
      exact ⟨x, rest, houtput, hlen, rfl⟩
    · cases h

theorem stamp_spec {fill : Party w → Header} {k : Nat} (h : p.stamp fill k = some p') :
    ∃ x header, p.pool[k]? = some (.taken x) ∧ header.msgSeqNum = p.seqNum.setWidth 32 ∧
      header.msgType = x.msgType ∧ header.senderCompId = (fill p).senderCompId ∧
      header.targetCompId = (fill p).targetCompId ∧
      p' = { p with
        pool := p.pool.set k
          (.stamped { header, place := x.place, after := p.counted, seen := p.received }) } := by
  unfold Party.stamp at h
  split at h
  · rename_i x hk
    cases h
    exact ⟨x, { fill p with
      beginString := "FIX.4.2", msgType := x.msgType, msgSeqNum := p.seqNum.setWidth 32 },
      hk, rfl, rfl, rfl, rfl, rfl⟩
  · cases h

theorem count_spec {k : Nat} (h : p.count k = some p') :
    ∃ msg, p.pool[k]? = some (.stamped msg) ∧ p' = { p with
      seqNum := p.seqNum + 1, pool := p.pool.set k (.counted msg), counted := p.counted + 1 } := by
  unfold Party.count at h
  split at h
  · rename_i msg hk
    cases h
    exact ⟨msg, hk, rfl⟩
  · cases h

theorem transmit_spec {k : Nat} {out : Msg} (h : p.transmit k = some (p', out)) :
    ∃ msg, p.pool[k]? = some (.counted msg) ∧ out = { msg with nth := p.transmitted + 1 } ∧
      p' = { p with pool := p.pool.eraseIdx k, transmitted := p.transmitted + 1 } := by
  unfold Party.transmit at h
  split at h
  · rename_i msg hk
    cases h
    exact ⟨msg, hk, rfl, rfl⟩
  · cases h

/-! ## The header validation -/

theorem validate_spec {types : List Char} {verify : Party w → Header → Option SessionReject}
    (h : p.validate types verify = some p') : ∃ msg rest, p.validation = msg :: rest ∧
      (p' = ({ p with validation := rest } : Party w).append '3' ∨
        verify p msg.header = none ∧ p' = { p with
          validation := rest
          router := p.router ++ [{ msg with
            checked := if p.loggedIn then some (p.userId, p.seqNum.toNat) else none }] }) := by
  unfold Party.validate at h
  split at h
  · cases h
  · rename_i msg rest hval
    refine ⟨msg, rest, hval, ?_⟩
    dsimp only at h
    split at h
    · cases h
      exact .inl rfl
    · split at h <;> rename_i hver <;> cases h
      · exact .inl rfl
      · exact .inr ⟨hver, rfl⟩

end Session

end Fix42
