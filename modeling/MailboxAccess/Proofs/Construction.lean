import MailboxAccess.Proofs.ByteOrder
import MailboxAccess.Proofs.Grants

namespace MailboxAccess

/-- How a list comes about: from scratch, from other lists, or from stored bytes. -/
inductive Construction where
  | empty
  | ownerFull
  | ofEntries (entries : List (EntryKey × Rights))
  | withEntry (base : Construction) (key : EntryKey) (rights : Rights)
  | apply (base : Construction) (command : Command)
  | union (left right : Construction)
  | except (left right : Construction)
  /-- The difference between two lists, applied to a third. -/
  | applyTo (old new base : Construction)
  | decode (codec : Codec) (bytes : Bytes)

namespace Construction

def build : Construction → Except DecodeError Acl
  | empty => return Acl.empty
  | ownerFull => return Acl.ownerFull
  | ofEntries entries => return Acl.ofEntries entries
  | withEntry base key rights => return (← base.build).withEntry key rights
  | apply base command => return (← base.build).apply command
  | union left right => return (← left.build).union (← right.build)
  | except left right => return (← left.build).except (← right.build)
  | applyTo old new base => return (Diff.between (← old.build) (← new.build)).applyTo (← base.build)
  | decode codec bytes => codec.decode bytes

def rights : Construction → EntryKey → Rights
  | empty, _ => Rights.empty
  | ownerFull, key => if key = EntryKey.owner then Rights.full else Rights.empty
  | ofEntries entries, key => Acl.lastGrant entries key
  | withEntry base changed rights, key => if key = changed then rights else base.rights key
  | apply base command, key =>
    if key = command.key then command.mode.edit (base.rights key) command.rights else base.rights key
  | union left right, key => (left.rights key).union (right.rights key)
  | except left right, key => (left.rights key).except (right.rights key)
  | applyTo old new base, key => if old.rights key = new.rights key then base.rights key else new.rights key
  | decode codec bytes, key => ((codec.read? bytes).map fun document => document.rightsAt key).getD Rights.empty

theorem bind_eq_ok {α β : Type} {first : Except DecodeError α} {rest : α → Except DecodeError β} {b : β}
    (ran : first >>= rest = .ok b) : ∃ a, first = .ok a ∧ rest a = .ok b := by
  cases first with
  | error e => cases ran
  | ok a => exact ⟨a, rfl, ran⟩

/-- A list that was built grants what its construction says. -/
theorem rightsOf_build {construction : Construction} {acl : Acl} (built : construction.build = .ok acl)
    (key : EntryKey) : acl.rightsOf key = construction.rights key := by
  induction construction generalizing acl with
  | empty =>
      cases built
      rfl
  | ownerFull =>
      cases built
      by_cases owner : key = EntryKey.owner
      · rw [rights, if_pos owner, owner]
        rfl
      · rw [rights, if_neg owner, Acl.ownerFull, Acl.rightsOf_ofEntries, Acl.lastGrant]
        simp [Ne.symm owner]
  | ofEntries entries =>
      cases built
      exact Acl.rightsOf_ofEntries entries key
  | withEntry base changed granted ih =>
      rcases bind_eq_ok built with ⟨below, made, rest⟩
      cases rest
      rw [Acl.rightsOf_withEntry, ih made, rights]
  | apply base command ih =>
      rcases bind_eq_ok built with ⟨below, made, rest⟩
      cases rest
      rw [Acl.rightsOf_apply, ih made, rights]
  | union left right ihLeft ihRight =>
      rcases bind_eq_ok built with ⟨first, made, rest⟩
      rcases bind_eq_ok rest with ⟨second, made', rest⟩
      cases rest
      rw [Acl.rightsOf_union, ihLeft made, ihRight made', rights]
  | except left right ihLeft ihRight =>
      rcases bind_eq_ok built with ⟨first, made, rest⟩
      rcases bind_eq_ok rest with ⟨second, made', rest⟩
      cases rest
      rw [Acl.rightsOf_except, ihLeft made, ihRight made', rights]
  | applyTo old new base ihOld ihNew ihBase =>
      rcases bind_eq_ok built with ⟨before, made, rest⟩
      rcases bind_eq_ok rest with ⟨after, made', rest⟩
      rcases bind_eq_ok rest with ⟨below, made'', rest⟩
      cases rest
      rw [Diff.rightsOf_applyTo, ihOld made, ihNew made', ihBase made'', rights]
  | decode codec bytes =>
      rcases Codec.exists_document_of_decode built with ⟨document, read, listed⟩
      rw [Document.rightsOf_toAcl listed, rights, read]
      rfl

end Construction

structure Listed (acl : Acl) (pairs : List (String × String)) : Prop where
  entries : pairs.Perm (acl.entries.map fun entry => (entry.1.text, entry.2.text))
  ascending : pairs.Pairwise fun a b => Bytes.ofText a.1 < Bytes.ofText b.1
  json : Codec.json.encode acl =
    Json.openBrace :: Json.writeText "entries" ++ [Json.colon, Json.openBrace] ++
      [Json.comma].intercalate (pairs.map fun pair => Json.writeText pair.1 ++ Json.colon :: Json.writeText pair.2) ++
      [Json.closeBrace, Json.closeBrace]
  cbor : Codec.cbor.encode acl =
    Cbor.writeMapHeader 1 ++ Cbor.writeText "entries" ++ Cbor.writeMapHeader acl.size ++
      pairs.flatMap fun pair => Cbor.writeText pair.1 ++ Cbor.writeText pair.2

theorem Document.perm_ofAcl (acl : Acl) : (ofAcl acl).entries.Perm (acl.entries.map wordEntry) := by
  have nodup {entries : List (String × String)} (distinct : entries.Pairwise fun a b => a.1 ≠ b.1) :
      entries.Nodup := distinct.imp fun apart same => apart (congrArg Prod.fst same)
  exact (List.perm_ext_iff_of_nodup (nodup (ofAcl acl).distinct) (nodup (distinct_wordEntry acl))).mpr
    (mem_ofAcl_iff acl)

theorem listed_ofAcl (acl : Acl) : Listed acl (Document.ofAcl acl).entries where
  entries := Document.perm_ofAcl acl
  ascending := by
    apply (Document.ofAcl acl).ascending.imp
    intro a b less
    exact (Bytes.compare_text_iff a.1 b.1).mp less
  json := rfl
  cbor := by
    have size : (Document.ofAcl acl).size = acl.size := by
      have length := (Document.perm_ofAcl acl).length_eq
      rwa [List.length_map] at length
    rw [← size]
    rfl

theorem Codec.encode_inj {codec : Codec} {a b : Acl} (carried : codec.Carries a.keys)
    (carried' : codec.Carries b.keys) :
    codec.encode a = codec.encode b ↔ a = b := by
  constructor
  · intro same
    have read := decode_encode carried
    rw [same, decode_encode carried'] at read
    cases read
    rfl
  · intro same
    rw [same]

/-- How a list stands that was built in any way: its entries ascend and none is empty, they are what the
construction says of each key, and its bytes list them. -/
structure Canonical (construction : Construction) (acl : Acl) : Prop where
  ascending : acl.entries.Pairwise fun a b => a.1.Before b.1
  granted : ∀ key rights, (key, rights) ∈ acl.entries ↔ rights = construction.rights key ∧ rights ≠ Rights.empty
  listed : ∃ pairs, Listed acl pairs

theorem canonical_of_build {construction : Construction} {acl : Acl} (built : construction.build = .ok acl) :
    Canonical construction acl where
  ascending := by
    apply acl.table.ascending.imp
    intro a b less
    exact (EntryKey.compare_iff_before a.1 b.1).mp less
  granted := by
    intro key rights
    have held : (key, rights) ∈ acl.entries ↔ acl.get? key = some rights := SortedMap.get?_eq_some_iff.symm
    rw [held, Acl.get?_eq_rightsOf, Construction.rightsOf_build built]
    by_cases none : construction.rights key = Rights.empty
    · simp only [none, if_true, reduceCtorEq, false_iff, not_and, not_not]
      exact id
    · rw [if_neg none, Option.some.injEq]
      constructor
      · intro same
        exact ⟨same.symm, same ▸ none⟩
      · intro both
        exact both.1.symm
  listed := ⟨_, listed_ofAcl acl⟩

/-- Lists are canonical however they were built: two of them are equal when they answer alike for every key,
and when their bytes are equal in either format. A CBOR header holds lengths below `2 ^ 64`. -/
theorem construction_canonical {first second : Construction} {a b : Acl} (built : first.build = .ok a)
    (built' : second.build = .ok b) :
    Canonical first a ∧ Canonical second b ∧ (a = b ↔ ∀ key, a.get? key = b.get? key) ∧
      (a = b ↔ Codec.json.encode a = Codec.json.encode b) ∧
      (Codec.cbor.Carries a.keys → Codec.cbor.Carries b.keys →
        (a = b ↔ Codec.cbor.encode a = Codec.cbor.encode b)) := by
  refine ⟨canonical_of_build built, canonical_of_build built', ?_, ?_, ?_⟩
  · constructor
    · intro same key
      rw [same]
    · exact Acl.ext_get?
  · have carried (acl : Acl) : Codec.json.Carries acl.keys := trivial
    exact (Codec.encode_inj (carried a) (carried b)).symm
  · intro carried carried'
    exact (Codec.encode_inj carried carried').symm

def mergedConstruction : Construction :=
  .union (.ofEntries [(EntryKey.anyone, Rights.full), (EntryKey.anyone, Rights.only .lookup),
    (EntryKey.owner, Rights.empty)]) .ownerFull

def mergedList : Acl :=
  Acl.ofEntries [(EntryKey.owner, Rights.full), (EntryKey.anyone, Rights.only .lookup)]

def rereadConstruction : Construction :=
  .withEntry (.decode .json (Codec.json.encode Acl.ownerFull)) EntryKey.anyone (Rights.only .lookup)

def rereadList : Acl := Acl.ownerFull.withEntry EntryKey.anyone (Rights.only .lookup)

theorem construction_canonical_of_reread :
    mergedConstruction.build = .ok mergedList ∧ rereadConstruction.build = .ok rereadList ∧
      Canonical mergedConstruction mergedList ∧ Canonical rereadConstruction rereadList ∧
      (mergedList = rereadList ↔ ∀ key, mergedList.get? key = rereadList.get? key) ∧
      (mergedList = rereadList ↔ Codec.json.encode mergedList = Codec.json.encode rereadList) ∧
      Codec.cbor.Carries mergedList.keys ∧ Codec.cbor.Carries rereadList.keys ∧
      (mergedList = rereadList ↔ Codec.cbor.encode mergedList = Codec.cbor.encode rereadList) := by
  have merged : mergedConstruction.build = .ok mergedList := by rfl
  have reread : rereadConstruction.build = .ok rereadList := by
    have read : Codec.json.decode (Codec.json.encode Acl.ownerFull) = .ok Acl.ownerFull :=
      Codec.decode_encode (show Codec.json.Carries Acl.ownerFull.keys from trivial)
    simp only [rereadConstruction, Construction.build, read]
    rfl
  have carried : Codec.cbor.Carries mergedList.keys := ⟨by decide, by decide⟩
  have carried' : Codec.cbor.Carries rereadList.keys := ⟨by decide, by decide⟩
  rcases construction_canonical merged reread with ⟨first, second, answers, json, cbor⟩
  exact ⟨merged, reread, first, second, answers, json, carried, carried', cbor carried carried'⟩

end MailboxAccess
