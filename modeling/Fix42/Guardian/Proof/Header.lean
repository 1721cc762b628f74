import Fix42.Guardian.Header
import Fix42.Guardian.Proof.FixHelper

/-!
# Reading a header

Both loops set properties as `FromString` does, for as long as they go on (`readPositional_spec`,
`readTags_spec`); what they ask of the tags besides makes `fromString_spec`. The second loop starts with
an empty set of tags, so that it does not know of the positional ones.
-/

namespace Fix42

namespace Guardian

variable {Single : Type} {culture : Culture Single} {c : MessageClass}

namespace MessageClass

theorem mem_globalProperty (i : c.Index) : i ∈ c.globalProperty :=
  (List.mem_insertionSort _).2 (mem_indices i)

theorem tagId_inj {i j : c.Index} (h : (c.property i).tagId = (c.property j).tagId) : i = j := by
  have hi := find_tagId i
  rw [h, find_tagId] at hi
  exact (Option.some.inj hi).symm

theorem find_eq_some {tag : UInt16} {i : c.Index} (h : c.find tag = some i) :
    (c.property i).tagId = tag := by
  simpa using List.find?_some h

theorem findGlobal_eq (tag : UInt16) : c.findGlobal tag = c.find tag := by
  cases h : c.findGlobal tag with
  | some i =>
    have htag : (c.property i).tagId = tag := by simpa using List.find?_some h
    rw [← htag, find_tagId]
  | none =>
    refine (List.find?_eq_none.2 fun i _ => ?_).symm
    exact List.find?_eq_none.1 h i (mem_globalProperty i)

end MessageClass

/-! ## Setting properties -/

variable {m m' : Object Single c} {x y : MapMessage}

theorem tags_cons {p : UInt16 × Text} : tags (p :: x) = p.1 :: tags x := rfl

theorem setAll_cons {p : UInt16 × Text} :
    setAll culture m (p :: x) = .ok m' ↔ ∃ i value, c.find p.1 = some i ∧
      convertValue culture p.2 (c.property i).kind = .ok (some value) ∧
      setAll culture (m.set i value) x = .ok m' := by
  obtain ⟨tag, raw⟩ := p
  rw [setAll]
  cases hi : c.find tag with
  | none => simp
  | some i =>
    simp only [Option.some.injEq, exists_and_left, exists_eq_left']
    cases hconvert : convertValue culture raw (c.property i).kind with
    | error e => simp
    | ok value =>
      cases value with
      | none => simp
      | some value => simp

theorem setAll_append : setAll culture m (x ++ y) = .ok m' ↔
    ∃ o, setAll culture m x = .ok o ∧ setAll culture o y = .ok m' := by
  induction x generalizing m with
  | nil => simp [setAll]
  | cons p x ih =>
    rw [List.cons_append, setAll_cons]
    constructor
    · rintro ⟨i, value, hi, hvalue, hrest⟩
      obtain ⟨o, hx, hy⟩ := ih.1 hrest
      exact ⟨o, setAll_cons.2 ⟨i, value, hi, hvalue, hx⟩, hy⟩
    · rintro ⟨o, hx, hy⟩
      obtain ⟨i, value, hi, hvalue, hrest⟩ := setAll_cons.1 hx
      exact ⟨i, value, hi, hvalue, ih.2 ⟨o, hrest, hy⟩⟩

/-- All the pairs can be set iff each of them can. -/
theorem exists_setAll : (∃ m', setAll culture m x = .ok m') ↔
    ∀ p ∈ x, ∃ i value, p.1 = (c.property i).tagId ∧
      convertValue culture p.2 (c.property i).kind = .ok (some value) := by
  induction x generalizing m with
  | nil => simp [setAll]
  | cons p x ih =>
    rw [List.forall_mem_cons]
    constructor
    · rintro ⟨m', h⟩
      obtain ⟨i, value, hi, hvalue, hrest⟩ := setAll_cons.1 h
      exact ⟨⟨i, value, (MessageClass.find_eq_some hi).symm, hvalue⟩, ih.1 ⟨m', hrest⟩⟩
    · rintro ⟨⟨i, value, htag, hvalue⟩, hx⟩
      obtain ⟨m', hrest⟩ := (ih (m := m.set i value)).2 hx
      exact ⟨m', setAll_cons.2 ⟨i, value, htag ▸ MessageClass.find_tagId i, hvalue, hrest⟩⟩

theorem setAll_isSome (h : setAll culture m x = .ok m') (i : c.Index) :
    (m' i).isSome = true ↔ (c.property i).tagId ∈ tags x ∨ (m i).isSome = true := by
  induction x generalizing m with
  | nil =>
    obtain rfl : m = m' := Except.ok.inj h
    simp [tags]
  | cons p x ih =>
    obtain ⟨j, value, hj, -, hrest⟩ := setAll_cons.1 h
    have htag := MessageClass.find_eq_some hj
    rw [ih hrest, tags_cons, List.mem_cons, or_assoc, or_left_comm]
    refine or_congr_right ?_
    by_cases hij : i = j
    · subst hij
      simp [htag]
    · have hne : (c.property i).tagId ≠ p.1 := fun h => hij (MessageClass.tagId_inj (h.trans htag.symm))
      simp [Object.set_of_ne hij, hne]

/-- With no tag twice, a property has the value given for its tag. -/
theorem setAll_value (h : setAll culture m x = .ok m') (hx : (tags x).Nodup) (i : c.Index)
    (value : Carrier Single (c.property i).kind) :
    m' i = some value ↔ (∃ p ∈ x, p.1 = (c.property i).tagId ∧
        convertValue culture p.2 (c.property i).kind = .ok (some value)) ∨
      (c.property i).tagId ∉ tags x ∧ m i = some value := by
  induction x generalizing m with
  | nil =>
    obtain rfl : m = m' := Except.ok.inj h
    simp [tags]
  | cons p x ih =>
    obtain ⟨j, w, hj, hw, hrest⟩ := setAll_cons.1 h
    have htag := MessageClass.find_eq_some hj
    obtain ⟨hp, hx⟩ := List.nodup_cons.1 hx
    rw [ih hrest hx, List.exists_mem_cons_iff, or_assoc]
    by_cases hij : i = j
    · subst hij
      have hnone : ¬ ∃ q ∈ x, q.1 = (c.property i).tagId ∧
          convertValue culture q.2 (c.property i).kind = .ok (some value) := by
        rintro ⟨q, hq, hqi, -⟩
        exact hp (List.mem_map.2 ⟨q, hq, hqi.trans htag⟩)
      have hin : (c.property i).tagId ∈ tags (p :: x) := htag ▸ List.mem_cons_self
      have hout : (c.property i).tagId ∉ tags x := htag ▸ hp
      have hnot : ¬ ((c.property i).tagId ∉ tags (p :: x) ∧ m i = some value) := fun h => h.1 hin
      rw [or_iff_right hnone, or_iff_right hnone, or_iff_left hnot, and_iff_right hout,
        and_iff_right htag.symm, hw, Object.set_self, Except.ok.injEq, Option.some.injEq]
    · have hne : p.1 ≠ (c.property i).tagId := fun h =>
        hij (MessageClass.tagId_inj (h.symm.trans htag.symm))
      have hmem : (c.property i).tagId ∈ tags (p :: x) ↔ (c.property i).tagId ∈ tags x :=
        List.mem_cons.trans (or_iff_right hne.symm)
      rw [Object.set_of_ne hij, hmem]
      simp [hne]

/-! ## The loops -/

theorem readPositional_cons {i : c.Index} {is : List c.Index} {p : UInt16 × Text}
    {s : HeaderReading Single c} :
    readPositional culture (i :: is) ⟨m, p :: x⟩ = (s, none) ↔ (c.property i).tagId = p.1 ∧
      ∃ value, convertValue culture p.2 (c.property i).kind = .ok (some value) ∧
        readPositional culture is ⟨m.set i value, x⟩ = (s, none) := by
  obtain ⟨tag, raw⟩ := p
  rw [readPositional]
  dsimp only
  by_cases htag : (c.property i).tagId = tag
  · rw [if_neg (not_not.2 htag), and_iff_right htag]
    cases hconvert : convertValue culture raw (c.property i).kind with
    | error e => simp
    | ok value =>
      cases value with
      | none => simp
      | some value => simp
  · rw [if_pos htag]
    exact iff_of_false (by simp) fun h => htag h.1

theorem readPositional_spec {is : List c.Index} {s : HeaderReading Single c} :
    readPositional culture is ⟨m, x⟩ = (s, none) ↔ ∃ pre, x = pre ++ s.mapmsg ∧
      tags pre = is.map (fun i => (c.property i).tagId) ∧ setAll culture m pre = .ok s.header := by
  induction is generalizing m x with
  | nil =>
    rw [readPositional, List.map_nil]
    constructor
    · intro h
      obtain ⟨rfl, -⟩ := Prod.mk.inj h
      exact ⟨[], rfl, rfl, rfl⟩
    · rintro ⟨pre, rfl, hpre, hset⟩
      obtain rfl := List.map_eq_nil_iff.1 hpre
      obtain rfl : m = s.header := Except.ok.inj hset
      rfl
  | cons i is ih =>
    cases x with
    | nil =>
      refine iff_of_false (by simp [readPositional]) ?_
      rintro ⟨pre, hnil, hpre, -⟩
      obtain ⟨rfl, -⟩ := List.nil_eq_append_iff.1 hnil
      cases hpre
    | cons p x =>
      rw [readPositional_cons]
      constructor
      · rintro ⟨htag, value, hconvert, hrest⟩
        obtain ⟨pre, rfl, hpre, hset⟩ := ih.1 hrest
        have hfind : c.find p.1 = some i := htag ▸ MessageClass.find_tagId i
        refine ⟨p :: pre, rfl, ?_, setAll_cons.2 ⟨i, value, hfind, hconvert, hset⟩⟩
        rw [tags_cons, hpre, ← htag, List.map_cons]
      · rintro ⟨pre, hx, hpre, hset⟩
        cases pre with
        | nil => cases hpre
        | cons q pre =>
          obtain ⟨rfl, rfl⟩ := List.cons.inj hx
          obtain ⟨htag, hpre⟩ := List.cons.inj hpre
          obtain ⟨j, value, hj, hconvert, hrest⟩ := setAll_cons.1 hset
          obtain rfl : i = j :=
            MessageClass.tagId_inj (htag.symm.trans (MessageClass.find_eq_some hj).symm)
          exact ⟨htag.symm, value, hconvert, ih.2 ⟨pre, rfl, hpre, hrest⟩⟩

/-- Whether a pair has a tag of the class. -/
def MessageClass.has (c : MessageClass) (p : UInt16 × Text) : Bool := (c.find p.1).isSome

theorem readTags_cons {tagset : List UInt16} {p : UInt16 × Text} {s : HeaderReading Single c} :
    readTags culture tagset m (p :: x) = (s, none) ↔ p.1 ∉ tagset ∧
      (c.find p.1 = none ∧ s = ⟨m, p :: x⟩ ∨ ∃ i value, c.find p.1 = some i ∧
        convertValue culture p.2 (c.property i).kind = .ok (some value) ∧
        readTags culture (p.1 :: tagset) (m.set i value) x = (s, none)) := by
  obtain ⟨tag, raw⟩ := p
  rw [readTags, MessageClass.findGlobal_eq]
  dsimp only
  by_cases hin : tag ∈ tagset
  · rw [if_pos hin]
    exact iff_of_false (by simp) fun h => h.1 hin
  · rw [if_neg hin, and_iff_right hin]
    cases hfind : c.find tag with
    | none => simp [eq_comm]
    | some i =>
      simp only [reduceCtorEq, false_and, false_or, Option.some.injEq, exists_and_left,
        exists_eq_left']
      cases hconvert : convertValue culture raw (c.property i).kind with
      | error e => simp
      | ok value =>
        cases value with
        | none => simp
        | some value => simp

/-- The loop takes the pairs with a tag of the class, if no tag comes twice or was there before. -/
theorem readTags_spec {tagset : List UInt16} {s : HeaderReading Single c}
    (htagset : ∀ t ∈ tagset, (c.find t).isSome = true) :
    readTags culture tagset m x = (s, none) ↔ s.mapmsg = x.dropWhile c.has ∧
      (tags (x.takeWhile c.has)).Nodup ∧ (∀ t ∈ tags (x.takeWhile c.has), t ∉ tagset) ∧
      setAll culture m (x.takeWhile c.has) = .ok s.header := by
  induction x generalizing m tagset with
  | nil =>
    obtain ⟨o, rest⟩ := s
    simp [readTags, tags, setAll, eq_comm, and_comm]
  | cons p x ih =>
    rw [readTags_cons]
    by_cases hhas : c.has p = true
    · have htagset' : ∀ t ∈ p.1 :: tagset, (c.find t).isSome = true :=
        List.forall_mem_cons.2 ⟨hhas, htagset⟩
      rw [List.takeWhile_cons_of_pos hhas, List.dropWhile_cons_of_pos hhas, tags_cons,
        List.nodup_cons, List.forall_mem_cons, setAll_cons]
      constructor
      · rintro ⟨hin, ⟨hnone, -⟩ | ⟨i, value, hfind, hconvert, hrest⟩⟩
        · rw [MessageClass.has, hnone] at hhas
          cases hhas
        · obtain ⟨hdrop, hnodup, hout, hset⟩ := (ih htagset').1 hrest
          refine ⟨hdrop, ⟨fun h => hout _ h List.mem_cons_self, hnodup⟩, ⟨hin, fun t ht h => ?_⟩,
            i, value, hfind, hconvert, hset⟩
          exact hout t ht (List.mem_cons_of_mem _ h)
      · rintro ⟨hdrop, ⟨hnot, hnodup⟩, ⟨hin, hout⟩, i, value, hfind, hconvert, hset⟩
        refine ⟨hin, .inr ⟨i, value, hfind, hconvert, (ih htagset').2 ⟨hdrop, hnodup, ?_, hset⟩⟩⟩
        intro t ht h
        rcases List.mem_cons.1 h with rfl | h
        · exact hnot ht
        · exact hout t ht h
    · have hnone : c.find p.1 = none := by simpa [MessageClass.has] using hhas
      have hin : p.1 ∉ tagset := fun h => hhas (htagset p.1 h)
      obtain ⟨o, rest⟩ := s
      rw [List.takeWhile_cons_of_neg hhas, List.dropWhile_cons_of_neg hhas, and_iff_right hin]
      simp [hnone, tags, setAll, eq_comm, and_comm]

/-! ## FromString -/

theorem verifyRequired_eq_ok {o : Object Single c} :
    verifyRequired m = .ok o ↔ m = o ∧ ∀ i, (c.property i).optionalTag = false → (m i).isSome := by
  have hmissing : m.missing = none ↔ ∀ i, (c.property i).optionalTag = false → (m i).isSome := by
    rw [Object.missing, List.find?_eq_none]
    refine ⟨fun h i hi => ?_, fun h i _ => ?_⟩
    · have hm := h i (MessageClass.mem_indices i)
      rw [hi] at hm
      simpa [Option.isSome_iff_ne_none] using hm
    · intro hnone
      obtain ⟨hm, hopt⟩ := (Bool.and_eq_true _ _).mp hnone
      have hsome := h i (by simpa using hopt)
      rw [Option.isNone_iff_eq_none.1 hm] at hsome
      cases hsome
  rw [verifyRequired, ← hmissing]
  cases h : m.missing <;> simp

theorem readHeader_spec {s : HeaderReading Single c} :
    readHeader culture c x = (s, none) ↔ ∃ pre y, x = pre ++ y ∧
      tags pre = c.positionalProperty.map (fun i => (c.property i).tagId) ∧
      s.mapmsg = y.dropWhile c.has ∧ (tags (y.takeWhile c.has)).Nodup ∧
      setAll culture Object.new (pre ++ y.takeWhile c.has) = .ok s.header ∧
      ∀ i, (c.property i).optionalTag = false → (s.header i).isSome := by
  rw [readHeader]
  constructor
  · intro h
    cases h1 : readPositional culture c.positionalProperty ⟨Object.new, x⟩ with
    | mk s1 e1 =>
      cases e1 with
      | some e => simp [h1] at h
      | none =>
        obtain ⟨pre, hx, hpre, hset1⟩ := readPositional_spec.1 h1
        simp only [h1] at h
        cases h2 : readTags culture [] s1.header s1.mapmsg with
        | mk s2 e2 =>
          cases e2 with
          | some e => simp [h2] at h
          | none =>
            obtain ⟨hrest, hnodup, -, hset2⟩ := (readTags_spec (by simp)).1 h2
            simp only [h2] at h
            cases h3 : verifyRequired s2.header with
            | error e => simp [h3] at h
            | ok o =>
              simp only [h3] at h
              obtain ⟨rfl, -⟩ := Prod.mk.inj h
              exact ⟨pre, s1.mapmsg, hx, hpre, hrest, hnodup, setAll_append.2 ⟨_, hset1, hset2⟩,
                (verifyRequired_eq_ok.1 h3).2⟩
  · rintro ⟨pre, y, rfl, hpre, hrest, hnodup, hset, hrequired⟩
    obtain ⟨o, hset1, hset2⟩ := setAll_append.1 hset
    have h1 : readPositional culture c.positionalProperty ⟨Object.new, pre ++ y⟩ = (⟨o, y⟩, none) :=
      readPositional_spec.2 ⟨pre, rfl, hpre, hset1⟩
    have h2 : readTags culture [] o y = (s, none) :=
      (readTags_spec (by simp)).2 ⟨hrest, hnodup, by simp, hset2⟩
    have h3 : verifyRequired s.header = .ok s.header := verifyRequired_eq_ok.2 ⟨rfl, hrequired⟩
    simp only [h1, h2, h3]

theorem MessageClass.has_eq (p : UInt16 × Text) :
    c.has p = decide (p.1 ∈ c.properties.map Property.tagId) := by
  rw [Bool.eq_iff_iff, has, decide_eq_true_eq, List.mem_map]
  constructor
  · intro h
    obtain ⟨i, hi⟩ := Option.isSome_iff_exists.1 h
    exact ⟨c.property i, List.get_mem _ _, find_eq_some hi⟩
  · rintro ⟨q, hq, htag⟩
    obtain ⟨i, rfl⟩ := List.get_of_mem hq
    rw [← htag]
    exact Option.isSome_iff_exists.2 ⟨i, find_tagId i⟩

theorem headerRun_eq (x : MapMessage) : headerRun x = x.takeWhile header.has :=
  congrArg (List.takeWhile · x) (funext fun p => (MessageClass.has_eq p).symm)

theorem positional_tags :
    header.positionalProperty.map (fun i => (header.property i).tagId) = [8, 9, 35] := by
  decide +kernel

/-- `Header.FromString` succeeds if the positional tags come first, none of the others comes twice, and
all can be set. -/
theorem fromString_spec {s : HeaderReading Single header} :
    Header.fromString culture x = (s, none) ↔ s.mapmsg = x.dropWhile header.has ∧
      (tags (headerRun x)).take 3 = [8, 9, 35] ∧ ((tags (headerRun x)).drop 3).Nodup ∧
      setAll culture Object.new (headerRun x) = .ok s.header ∧
      ∀ i, (header.property i).optionalTag = false → (s.header i).isSome := by
  rw [Header.fromString, readHeader_spec, headerRun_eq, positional_tags]
  constructor
  · rintro ⟨pre, y, rfl, hpre, hrest, hnodup, hset, hrequired⟩
    have hhas : ∀ p ∈ pre, header.has p = true := by
      intro p hp
      have hmem : p.1 ∈ tags pre := List.mem_map_of_mem hp
      rw [MessageClass.has_eq, decide_eq_true_eq]
      rw [hpre] at hmem
      have hall : ([8, 9, 35].all fun t => t ∈ header.properties.map Property.tagId) = true := by
        decide +kernel
      exact of_decide_eq_true (List.all_eq_true.1 hall p.1 hmem)
    have htags : tags (pre ++ y.takeWhile header.has) = [8, 9, 35] ++ tags (y.takeWhile header.has) := by
      rw [← hpre]
      exact List.map_append
    rw [List.takeWhile_append_of_pos hhas, List.dropWhile_append_of_pos hhas, htags]
    exact ⟨hrest, rfl, hnodup, hset, hrequired⟩
  · rintro ⟨hrest, htake, hnodup, hset, hrequired⟩
    have hhas : ∀ p ∈ (x.takeWhile header.has).drop 3, header.has p = true := fun p hp =>
      List.mem_takeWhile_imp (List.mem_of_mem_drop hp)
    have hstop : (x.dropWhile header.has).takeWhile header.has = [] := by
      rw [List.takeWhile_eq_nil_iff]
      intro hlt
      exact List.dropWhile_get_zero_not _ _ hlt
    have hrun : ((x.takeWhile header.has).drop 3 ++ x.dropWhile header.has).takeWhile header.has =
        (x.takeWhile header.has).drop 3 := by
      rw [List.takeWhile_append_of_pos hhas, hstop, List.append_nil]
    refine ⟨(x.takeWhile header.has).take 3, (x.takeWhile header.has).drop 3 ++ x.dropWhile header.has,
      ?_, ?_, ?_, ?_, ?_, hrequired⟩
    · rw [← List.append_assoc, List.take_append_drop, List.takeWhile_append_dropWhile]
    · rw [tags, List.map_take]
      exact htake
    · rw [List.dropWhile_append_of_pos hhas, hrest]
      exact (List.dropWhile_eq_self_iff.2 fun hlt => List.dropWhile_get_zero_not _ _ hlt).symm
    · rw [hrun, tags, List.map_drop]
      exact hnodup
    · rw [hrun, List.take_append_drop]
      exact hset

/-- What `Header.FromString` accepts. -/
theorem fromString_accepts : (Header.fromString culture x).2 = none ↔
    (tags (headerRun x)).take 3 = [8, 9, 35] ∧ ((tags (headerRun x)).drop 3).Nodup ∧
      (∀ i, (header.property i).optionalTag = false → (header.property i).tagId ∈ tags (headerRun x)) ∧
      ∀ p ∈ headerRun x, ∃ i value, Gives culture p i value := by
  constructor
  · intro h
    obtain ⟨-, htake, hnodup, hset, hrequired⟩ := fromString_spec.1 (Prod.ext rfl h)
    refine ⟨htake, hnodup, fun i hi => ?_, exists_setAll.1 ⟨_, hset⟩⟩
    exact ((setAll_isSome hset i).1 (hrequired i hi)).resolve_right Bool.false_ne_true
  · rintro ⟨htake, hnodup, hrequired, hconverts⟩
    obtain ⟨o, hset⟩ := exists_setAll.2 hconverts
    have hok : Header.fromString culture x = (⟨o, x.dropWhile header.has⟩, none) :=
      fromString_spec.2 ⟨rfl, htake, hnodup, hset, fun i hi =>
        (setAll_isSome hset i).2 (.inl (hrequired i hi))⟩
    rw [hok]

theorem once_iff (h : (tags (headerRun x)).take 3 = [8, 9, 35]) : (tags (headerRun x)).Nodup ↔
    ((tags (headerRun x)).drop 3).Nodup ∧ ¬ ∃ t ∈ [8, 9, 35], t ∈ (tags (headerRun x)).drop 3 := by
  conv_lhs => rw [← List.take_append_drop 3 (tags (headerRun x)), h, List.nodup_append']
  rw [and_iff_right (by decide)]
  refine and_congr_right fun _ => ?_
  rw [List.disjoint_left, not_exists]
  exact forall_congr' fun t => not_and.symm

/-- **The header's grammar.** `Header.FromString` takes exactly the headers off the front of a list, and
takes them apart as they are given, unless a positional tag comes once more. -/
theorem reads_header_iff (culture : Culture Single) (mapmsg : MapMessage) :
    ReadsHeader culture mapmsg ↔ ¬ PositionalAgain culture mapmsg := by
  constructor
  · rintro ⟨hiff, -⟩ hagain
    have hok := fromString_accepts.2
      ⟨hagain.positional, hagain.once, hagain.required, hagain.converts⟩
    exact ((once_iff hagain.positional).1 (hiff.1 hok).once).2 hagain.again
  · intro hnot
    have hgrammar : (Header.fromString culture mapmsg).2 = none → HeaderGrammar culture mapmsg := by
      intro hok
      obtain ⟨htake, hnodup, hrequired, hconverts⟩ := fromString_accepts.1 hok
      refine ⟨htake, (once_iff htake).2 ⟨hnodup, fun hagain => ?_⟩, hrequired, hconverts⟩
      exact hnot ⟨htake, hagain, hnodup, hrequired, hconverts⟩
    refine ⟨⟨hgrammar, fun h => ?_⟩, fun hok => ?_⟩
    · exact fromString_accepts.2
        ⟨h.positional, ((once_iff h.positional).1 h.once).1, h.required, h.converts⟩
    · obtain ⟨hrest, -, -, hset, -⟩ := fromString_spec.1 (Prod.ext rfl hok)
      refine ⟨?_, fun i value => ?_⟩
      · rw [hrest, headerRun_eq, List.takeWhile_append_dropWhile]
      · rw [setAll_value hset (hgrammar hok).once, or_iff_left fun h => Option.some_ne_none _ h.2.symm]
        rfl

/-- A header in which the MsgType comes once more, and is overwritten. -/
def repeated : MapMessage :=
  [(8, text "FIX.4.2"), (9, text "0"), (35, text "A"), (49, text "S"), (56, text "T"), (34, text "1"),
    (35, text "D"), (52, text "20250101-00:00:00")]

theorem repeated_accepted : ¬ ReadsHeader .whole repeated := by
  intro h
  have hok : (Header.fromString .whole repeated).2 = none := by decide +kernel
  exact absurd (h.1.1 hok).once (by decide +kernel)

end Guardian

end Fix42
