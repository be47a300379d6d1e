import MailboxAccess.Proofs.ByteOrder
import MailboxAccess.Proofs.Grants

namespace MailboxAccess

theorem exists_first_cons_iff {α : Type} {first : α} {rest : List α} {sound failing : α → Prop} :
    (∃ before a after, first :: rest = before ++ a :: after ∧ (∀ other ∈ before, sound other) ∧ failing a) ↔
      failing first ∨ sound first ∧
        ∃ before a after, rest = before ++ a :: after ∧ (∀ other ∈ before, sound other) ∧ failing a := by
  constructor
  · intro found
    rcases found with ⟨before, a, after, split, earlier, failed⟩
    cases before with
    | nil =>
        cases split
        exact .inl failed
    | cons head before =>
        cases split
        rcases List.forall_mem_cons.mp earlier with ⟨good, earlier⟩
        exact .inr ⟨good, before, a, after, rfl, earlier, failed⟩
  · intro found
    rcases found with failed | ⟨good, before, a, after, rfl, earlier, failed⟩
    · exact ⟨[], first, rest, rfl, nofun, failed⟩
    · exact ⟨first :: before, a, after, rfl, List.forall_mem_cons.mpr ⟨good, earlier⟩, failed⟩

theorem mapM_eq_error_iff {α β ε : Type} {f : α → Except ε β} {as : List α} {e : ε} :
    as.mapM f = .error e ↔
      ∃ before a after, as = before ++ a :: after ∧ (∀ other ∈ before, ∃ b, f other = .ok b) ∧ f a = .error e := by
  induction as with
  | nil => simp [pure, Except.pure]
  | cons first rest ih =>
      rw [exists_first_cons_iff, ← ih, List.mapM_cons]
      cases f first with
      | error cause => simp [bind, Except.bind]
      | ok b => cases rest.mapM f <;> simp [bind, Except.bind, pure, Except.pure]

theorem Acl.get?_eq_some_iff_rightsOf {acl : Acl} {key : EntryKey} {rights : Rights} :
    acl.get? key = some rights ↔ acl.rightsOf key = rights ∧ rights ≠ Rights.empty := by
  rw [get?_eq_rightsOf]
  split <;> grind

theorem Acl.get?_eq_none_iff_rightsOf {acl : Acl} {key : EntryKey} :
    acl.get? key = none ↔ acl.rightsOf key = Rights.empty := by
  rw [get?_eq_rightsOf]
  split <;> simp [*]

theorem Acl.size_ofEntries_of_distinct {entries : List (EntryKey × Rights)}
    (distinct : entries.Pairwise fun a b => a.1 ≠ b.1) :
    (ofEntries entries).size = entries.countP fun entry => entry.2 ≠ Rights.empty := by
  have nodup {listed : List (EntryKey × Rights)} (apart : listed.Pairwise fun a b => a.1 ≠ b.1) : listed.Nodup :=
    apart.imp fun differ same => differ (congrArg Prod.fst same)
  have perm : (ofEntries entries).entries.Perm (entries.filter fun entry => entry.2 ≠ Rights.empty) := by
    apply (List.perm_ext_iff_of_nodup (nodup (ofEntries entries).table.distinct) (nodup (distinct.filter _))).mpr
    intro entry
    rw [List.mem_filter, decide_eq_true_eq]
    exact SortedMap.get?_eq_some_iff.symm.trans (get?_ofEntries_eq_some_iff distinct)
  rw [size, SortedMap.size, List.countP_eq_length_filter]
  exact perm.length_eq

namespace Document

variable {pair : String × String} {document : Document} {cause : FormatError}

structure Sound (pair : String × String) : Prop where
  key : ∃ key, EntryKey.parse pair.1 = .ok key
  rights : ∃ rights, Rights.parse pair.2 = .ok rights

/-- Why a pair of texts is refused. The rights are only looked at if the key can be read. -/
inductive Fault (pair : String × String) (cause : FormatError) : Prop where
  | key (refused : EntryKey.parse pair.1 = .error cause)
  | rights (known : ∃ key, EntryKey.parse pair.1 = .ok key) (refused : Rights.parse pair.2 = .error cause)

theorem readEntry_eq_ok_iff {entry : EntryKey × Rights} : readEntry pair = .ok entry ↔ ReadFrom pair entry := by
  refine ⟨readFrom_of_readEntry, ?_⟩
  intro worded
  rw [readEntry, worded.1, EntryKey.parse_text, worded.2]
  rfl

theorem exists_readEntry_iff : (∃ entry, readEntry pair = .ok entry) ↔ Sound pair := by
  constructor
  · intro read
    rcases read with ⟨entry, read⟩
    have worded := readFrom_of_readEntry read
    exact ⟨⟨entry.1, by rw [worded.1, EntryKey.parse_text]⟩, ⟨entry.2, worded.2⟩⟩
  · intro sound
    rcases sound with ⟨⟨key, named⟩, ⟨rights, granted⟩⟩
    exact ⟨(key, rights), readEntry_eq_ok_iff.mpr ⟨(EntryKey.text_of_parse named).symm, granted⟩⟩

theorem readEntry_eq_error_iff : readEntry pair = .error cause ↔ Fault pair cause := by
  rw [readEntry]
  cases named : EntryKey.parse pair.1 with
  | error other =>
      constructor
      · intro failed
        cases failed
        exact .key named
      · intro fault
        cases fault with
        | key refused =>
            rw [named] at refused
            cases refused
            rfl
        | rights known refused =>
            rcases known with ⟨key, known⟩
            rw [named] at known
            cases known
  | ok key =>
      have faulty : Fault pair cause ↔ Rights.parse pair.2 = .error cause := by
        constructor
        · intro fault
          cases fault with
          | key refused =>
              rw [named] at refused
              cases refused
          | rights known refused => exact refused
        · intro refused
          exact .rights ⟨key, named⟩ refused
      rw [faulty]
      cases Rights.parse pair.2 with
      | error other => simp [bind, Except.bind]
      | ok rights => simp [bind, Except.bind, pure, Except.pure]

theorem toAcl_eq_ok_iff {acl : Acl} :
    document.toAcl = .ok acl ↔
      ∃ entries, document.entries.mapM readEntry = .ok entries ∧ Acl.ofEntries entries = acl := by
  rw [toAcl]
  cases document.entries.mapM readEntry with
  | error e => simp [bind, Except.bind]
  | ok entries => simp [bind, Except.bind, pure, Except.pure]

theorem toAcl_eq_error_iff : document.toAcl = .error cause ↔ document.entries.mapM readEntry = .error cause := by
  rw [toAcl]
  cases document.entries.mapM readEntry with
  | error e => simp [bind, Except.bind]
  | ok entries => simp [bind, Except.bind, pure, Except.pure]

theorem before_iff {before after : List (String × String)} (split : document.entries = before ++ pair :: after)
    (other : String × String) :
    other ∈ before ↔ other ∈ document.entries ∧ Bytes.ofText other.1 < Bytes.ofText pair.1 := by
  have ascending := document.ascending
  rw [split, Ascending, List.pairwise_append, List.pairwise_cons] at ascending
  rw [split, List.mem_append, List.mem_cons]
  constructor
  · intro member
    exact ⟨.inl member, (Bytes.compare_text_iff _ _).mp (ascending.2.2 other member pair List.mem_cons_self)⟩
  · intro less
    rcases less with ⟨member | rfl | later, less⟩
    · exact member
    · exact absurd less (List.lt_irrefl _)
    · exact absurd less (List.lt_asymm ((Bytes.compare_text_iff _ _).mp (ascending.2.1.1 other later)))

theorem exists_toAcl_iff : (∃ acl, document.toAcl = .ok acl) ↔ ∀ pair ∈ document.entries, Sound pair := by
  constructor
  · intro read
    rcases read with ⟨acl, read⟩
    rcases toAcl_eq_ok_iff.mp read with ⟨entries, ran, -⟩
    intro pair member
    have image : readEntry pair ∈ entries.map .ok := Database.map_of_mapM ran ▸ List.mem_map_of_mem member
    rcases List.mem_map.mp image with ⟨entry, -, same⟩
    exact exists_readEntry_iff.mp ⟨entry, same.symm⟩
  · intro sound
    rcases Database.exists_mapM_eq_ok fun pair member => exists_readEntry_iff.mpr (sound pair member) with
      ⟨entries, ran⟩
    exact ⟨_, toAcl_eq_ok_iff.mpr ⟨entries, ran, rfl⟩⟩

theorem refused_iff : document.toAcl = .error cause ↔
    ∃ pair ∈ document.entries, Fault pair cause ∧
      ∀ other ∈ document.entries, Bytes.ofText other.1 < Bytes.ofText pair.1 → Sound other := by
  rw [toAcl_eq_error_iff, mapM_eq_error_iff]
  constructor
  · intro found
    rcases found with ⟨before, pair, after, split, sound, failed⟩
    have member : pair ∈ document.entries := by simp [split]
    refine ⟨pair, member, readEntry_eq_error_iff.mp failed, ?_⟩
    intro other listed less
    exact exists_readEntry_iff.mp (sound other ((before_iff split other).mpr ⟨listed, less⟩))
  · intro found
    rcases found with ⟨pair, member, fault, sound⟩
    rcases List.append_of_mem member with ⟨before, after, split⟩
    refine ⟨before, pair, after, split, ?_, readEntry_eq_error_iff.mpr fault⟩
    intro other earlier
    rcases (before_iff split other).mp earlier with ⟨listed, less⟩
    exact exists_readEntry_iff.mpr (sound other listed less)

/-- A list has what its document says: for each key the rights under the text of the key, and as many entries as the
document has that grant something. -/
structure Faithful (document : Document) (acl : Acl) : Prop where
  granted : ∀ key rights, acl.get? key = some rights ↔
    ∃ letters, document.get? key.text = some letters ∧ Rights.parse letters = .ok rights ∧ rights ≠ Rights.empty
  absent : ∀ key, acl.get? key = none ↔
    document.get? key.text = none ∨
      ∃ letters, document.get? key.text = some letters ∧ Rights.parse letters = .ok Rights.empty
  size : acl.size = document.entries.countP fun pair => Rights.parse pair.2 ≠ .ok Rights.empty

theorem rightsAt_eq_iff {key : EntryKey} {rights : Rights} (granting : rights ≠ Rights.empty) :
    document.rightsAt key = rights ↔
      ∃ letters, document.get? key.text = some letters ∧ Rights.parse letters = .ok rights := by
  unfold rightsAt
  cases document.get? key.text with
  | none => simp [granting.symm]
  | some letters =>
      cases read : Rights.parse letters with
      | error other => simp [read, Except.toOption, granting.symm]
      | ok parsed => simp [read, Except.toOption]

theorem rightsAt_eq_empty_iff (sound : ∀ pair ∈ document.entries, Sound pair) {key : EntryKey} :
    document.rightsAt key = Rights.empty ↔
      document.get? key.text = none ∨
        ∃ letters, document.get? key.text = some letters ∧ Rights.parse letters = .ok Rights.empty := by
  unfold rightsAt
  cases found : document.get? key.text with
  | none => simp
  | some letters =>
      rcases (sound (key.text, letters) (SortedMap.get?_eq_some_iff.mp found)).rights with ⟨parsed, read⟩
      simp [read, Except.toOption]

theorem countP_of_readFrom {pairs : List (String × String)} {read : List (EntryKey × Rights)}
    (worded : List.Forall₂ ReadFrom pairs read) :
    (read.countP fun entry => entry.2 ≠ Rights.empty) =
      pairs.countP fun pair => Rights.parse pair.2 ≠ .ok Rights.empty := by
  induction worded with
  | nil => rfl
  | cons first _ ih => simp only [List.countP_cons, ih, first.2, ne_eq, Except.ok.injEq]

theorem faithful_of_toAcl {acl : Acl} (read : document.toAcl = .ok acl) : Faithful document acl where
  granted key rights := by
    rw [Acl.get?_eq_some_iff_rightsOf, rightsOf_toAcl read]
    constructor
    · intro held
      rcases (rightsAt_eq_iff held.2).mp held.1 with ⟨letters, found, parsed⟩
      exact ⟨letters, found, parsed, held.2⟩
    · intro held
      rcases held with ⟨letters, found, parsed, granting⟩
      exact ⟨(rightsAt_eq_iff granting).mpr ⟨letters, found, parsed⟩, granting⟩
  absent key := by
    rw [Acl.get?_eq_none_iff_rightsOf, rightsOf_toAcl read]
    exact rightsAt_eq_empty_iff (exists_toAcl_iff.mp ⟨acl, read⟩)
  size := by
    rcases toAcl_eq_ok_iff.mp read with ⟨entries, ran, rfl⟩
    have worded := readFrom_of_mapM ran
    rw [Acl.size_ofEntries_of_distinct (distinct_of_readFrom document.distinct worded), countP_of_readFrom worded]

structure Validated (document : Document) : Prop where
  accepted : (∃ acl, document.toAcl = .ok acl) ↔ ∀ pair ∈ document.entries, Sound pair
  faithful : ∀ acl, document.toAcl = .ok acl → Faithful document acl
  /-- Of the entries at fault the one whose text comes first is reported. -/
  refused : ∀ cause, document.toAcl = .error cause ↔
    ∃ pair ∈ document.entries, Fault pair cause ∧
      ∀ other ∈ document.entries, Bytes.ofText other.1 < Bytes.ofText pair.1 → Sound other
  /-- Both formats leave it to this what a document they have read is worth, and pass on what they are told. -/
  decoded : ∀ codec bytes, Codec.read? codec bytes = some document →
    codec.decode bytes = document.toAcl.mapError .invalidEntry
  told : ∀ cause, (DecodeError.invalidEntry cause).message? = some ("serialization error: " ++ cause.message)

theorem validation_exact (document : Document) : Validated document where
  accepted := exists_toAcl_iff
  faithful _ := faithful_of_toAcl
  refused _ := refused_iff
  decoded _ _ := Codec.decode_of_read
  told _ := rfl

example : toAcl (SortedMap.ofList [("amy", "!"), ("-zed", "l?")]) = .error (.malformedRights "l?" '?') := by
  decide +kernel

end Document

end MailboxAccess
