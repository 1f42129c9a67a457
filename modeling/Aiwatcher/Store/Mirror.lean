import Aiwatcher.Store.Crash
import Aiwatcher.Store.Memory

/-!
# Aiwatcher.Store.Mirror

The file store beside the memory store.  `Mirrors` relates a directory with nothing in
its journal to the tables that hold the same: every table is the same map, a stream file
holds its stream, and a definition's slot file holds that definition's rows of the one
slot table.

Every reading answers the same from the two, and every write that does not depend on
what an id was used for keeps them together.
-/

namespace Aiwatcher.Store

open Engine Library List Std

/-- The message of a stream under an id. -/
def messageWithId (stream : List RecordedMessage) (id : String) : Option RecordedMessage :=
  stream.find? fun message => message.metadata.messageId == id

/-- A directory and the tables that hold the same. -/
structure Mirrors {β : Type} [StreamFile β] [LawfulStreamFile β] (disk : Disk β) (inner : Inner) :
    Prop where
  absent : ∀ e, disk.streams[e]? = none → inner.stream e = []
  whole : ∀ e file, disk.streams[e]? = some file →
    LawfulStreamFile.Whole file.1 (inner.stream e) ∧ file.2 = lastActivity (inner.stream e)
  inbox : ∀ e id version, inner.seenAt e id = some version →
    (messageWithId (inner.stream e) id).map (·.streamVersion) = some version
  projections : disk.projections = inner.projections
  outbox : disk.outbox = inner.outbox
  checkpoints : disk.checkpoints = inner.checkpoints
  attempts : disk.attempts = inner.attempts
  deciderLeases : disk.deciderLeases = inner.deciderLeases
  timers : disk.timers = inner.timers
  ownership : disk.ownership = inner.ownership
  journal : disk.commits = ∅
  slots : ∀ file record, record ∈ disk.readSlots file ↔
    record.key.file = file ∧ inner.slots[record.key]? = some record
  slotKeys : ∀ file, ((disk.readSlots file).map (·.key)).Nodup
  keyed : ∀ (key : SlotKey) (record : SlotRecord), inner.slots[key]? = some record → record.key = key

namespace Mirrors

variable {β : Type} [StreamFile β] [LawfulStreamFile β] {disk : Disk β} {inner : Inner}

theorem new : Mirrors (Disk.new : Disk β) Inner.new where
  absent e _ := by simp [Inner.stream, Inner.new]
  whole e file hfile := by simp [Disk.new] at hfile
  inbox e id version hseen := by simp [Inner.seenAt, Inner.new] at hseen
  projections := rfl
  outbox := rfl
  checkpoints := rfl
  attempts := rfl
  deciderLeases := rfl
  timers := rfl
  ownership := rfl
  journal := rfl
  slots file record := by simp [Disk.readSlots, Disk.new, Inner.new]
  slotKeys file := by simp [Disk.readSlots, Disk.new]
  keyed key record hrecord := by simp [Inner.new] at hrecord

/-! ## Reading a stream -/

section

variable (h : Mirrors disk inner)

include h

theorem readStreamValid (e : String) :
    disk.readStreamValid e = (inner.stream e,
      (disk.streams[e]?).elim 0 fun file => StreamFile.length file.1) := by
  unfold Disk.readStreamValid
  cases hfile : disk.streams[e]? with
  | none => simp [h.absent e hfile]
  | some file => exact LawfulStreamFile.readValid_of_whole (h.whole e file hfile).1

theorem readStream (e : String) : disk.readStream e = inner.stream e := by
  unfold Disk.readStream
  rw [h.readStreamValid]

theorem holds (e : String) : disk.holds e = inner.holds e := by
  unfold Disk.holds
  cases hfile : disk.streams[e]? with
  | none => simp [Inner.holds, h.absent e hfile]
  | some file =>
    have hpos := LawfulStreamFile.length_pos (h.whole e file hfile).1
    rw [Bool.eq_iff_iff, inner.holds_iff]
    simpa using hpos

theorem ownerOf (e : String) : disk.ownerOf e = inner.ownerOf e := by
  simp only [Disk.ownerOf, Inner.ownerOf, h.ownership]

section

variable (binding : ScopeBinding)

include binding

theorem check (e : String) : disk.check binding e = inner.check binding e := by
  simp only [Disk.check, Inner.check, h.ownerOf, h.holds]

theorem admits (e : String) : disk.admits binding e = inner.admits binding e := by
  simp only [Disk.admits, h.check, Inner.check, Inner.admits, ScopeBinding.check]
  split
  · simp_all [Except.isOk, Except.toBool]
  · simp_all [Except.isOk, Except.toBool]

theorem admitsPartition (k : String) :
    disk.admitsPartition binding k = inner.admitsPartition binding k := by
  simp only [Disk.admitsPartition, Inner.admitsPartition, h.admits]

theorem about {α : Type} (e : String) (answer : α) :
    disk.about binding e answer = inner.about binding e answer := by
  simp only [Disk.about, Inner.about, h.check]

theorem mine : disk.mine binding = inner.mine binding := by
  simp only [Disk.mine, Inner.mine, h.attempts, h.admits]

end

theorem lastActivity_eq (e : String) : disk.lastActivity e = lastActivity (inner.stream e) := by
  unfold Disk.lastActivity
  cases hfile : disk.streams[e]? with
  | none => simp [h.absent e hfile, lastActivity]
  | some file => exact (h.whole e file hfile).2

/-! ## Reading the slots -/

theorem find_slot (key : SlotKey) :
    ((disk.readSlots key.file).find? fun row => row.key == key) = inner.slots[key]? := by
  cases hheld : inner.slots[key]? with
  | none =>
    rw [find?_eq_none]
    intro row hrow hkey
    have hkey : row.key = key := by simpa using hkey
    have hslot := ((h.slots _ row).mp hrow).2
    rw [hkey, hheld] at hslot
    cases hslot
  | some record =>
    have hkey := h.keyed key record hheld
    have hmem : record ∈ disk.readSlots key.file :=
      (h.slots _ record).mpr ⟨by rw [hkey], by rw [hkey, hheld]⟩
    cases hfound : (disk.readSlots key.file).find? fun row => row.key == key with
    | none =>
      have hnone := find?_eq_none.mp hfound record hmem
      simp [hkey] at hnone
    | some row =>
      have hrow : row.key = key := by simpa using find?_some hfound
      have hslot := ((h.slots _ row).mp (mem_of_find?_eq_some hfound)).2
      rw [hrow, hheld] at hslot
      exact hslot.symm

end

theorem nodup_values {slots : BTreeMap SlotKey SlotRecord}
    (hkeyed : ∀ (key : SlotKey) (record : SlotRecord), slots[key]? = some record → record.key = key) :
    (BTreeMap.values slots).Nodup := by
  unfold BTreeMap.values
  rw [List.Nodup, pairwise_map]
  have hkeys : slots.toList.Pairwise fun a b => ¬ compare a.1 b.1 = .eq :=
    ExtTreeMap.distinct_keys_toList
  refine List.Pairwise.imp_of_mem ?_ hkeys
  intro a b ha hb hne heq
  have hka := hkeyed _ _ (ExtTreeMap.mem_toList_iff_getElem?_eq_some.mp ha)
  have hkb := hkeyed _ _ (ExtTreeMap.mem_toList_iff_getElem?_eq_some.mp hb)
  rw [heq, hkb] at hka
  simp [hka] at hne

/-- One definition's slots, whichever way they are kept: no two are at one instant, so
newest first is one order of them. -/
theorem newestFirst_slots (h : Mirrors disk inner) (kind : DefinitionKind) (name : String) :
    newestFirst (disk.readSlots ⟨kind, name⟩) =
      newestFirst ((BTreeMap.values inner.slots).filter fun record =>
        record.key.definitionKind == kind && record.key.definitionName == name) := by
  have hmem : ∀ record, record ∈ disk.readSlots ⟨kind, name⟩ ↔
      record ∈ (BTreeMap.values inner.slots).filter fun record =>
        record.key.definitionKind == kind && record.key.definitionName == name := by
    intro record
    rw [h.slots, mem_filter, BTreeMap.mem_values]
    constructor
    · rintro ⟨hfile, hslot⟩
      obtain ⟨hkind, hname⟩ := SlotFile.mk.inj hfile
      exact ⟨⟨_, hslot⟩, by simp [hkind, hname]⟩
    · rintro ⟨⟨key, hslot⟩, hwanted⟩
      have hkey := h.keyed key record hslot
      simp only [Bool.and_eq_true, beq_iff_eq] at hwanted
      exact ⟨by rw [SlotKey.file, hwanted.1, hwanted.2], by rw [hkey, hslot]⟩
  have hrows : (disk.readSlots ⟨kind, name⟩).Nodup := List.Nodup.of_map _ (h.slotKeys _)
  have hperm : (disk.readSlots ⟨kind, name⟩).Perm
      ((BTreeMap.values inner.slots).filter fun record =>
        record.key.definitionKind == kind && record.key.definitionName == name) :=
    (perm_ext_iff_of_nodup hrows ((nodup_values h.keyed).filter _)).mpr hmem
  unfold newestFirst
  refine List.Perm.eq_of_pairwise ?_ (pairwise_insertionSort _ _)
    (pairwise_insertionSort _ _)
    ((perm_insertionSort _ _).trans (hperm.trans (perm_insertionSort _ _).symm))
  intro a b ha hb hle hge
  obtain ⟨hfileA, hslotA⟩ := (h.slots _ _).mp ((perm_insertionSort _ _).mem_iff.mp ha)
  obtain ⟨hfileB, hslotB⟩ := (h.slots _ _).mp
    ((hmem b).mpr ((perm_insertionSort _ _).mem_iff.mp hb))
  have hkey : a.key = b.key := by
    cases hka : a.key
    cases hkb : b.key
    simp_all [SlotKey.file]
    lia
  rw [hkey, hslotB] at hslotA
  exact (Option.some.inj hslotA).symm

end Mirrors

/-! ## Writing what does not go through a stream -/

section Writes

variable {β : Type} [StreamFile β] [LawfulStreamFile β] {disk : Disk β} {inner : Inner}

/-- The same answer, and stores that hold the same. -/
def Together {α : Type} (file : α × Disk β) (memory : α × Inner) : Prop :=
  file.1 = memory.1 ∧ Mirrors file.2 memory.2

theorem Together.of {α : Type} {answer : α} (h : Mirrors disk inner) :
    Together (answer, disk) (answer, inner) := ⟨rfl, h⟩

namespace Mirrors

variable {binding : ScopeBinding}

section

variable (h : Mirrors disk inner)

include h

theorem takeDeciderLease (execution holder : String) (now : OffsetDateTime) :
    Together (disk.takeDeciderLease binding execution holder now)
      (inner.takeDeciderLease binding execution holder now) := by
  have hput : ∀ lease : DeciderLease,
      Mirrors { disk with deciderLeases := disk.deciderLeases.insert execution lease }
        { inner with deciderLeases := inner.deciderLeases.insert execution lease } := fun lease =>
    { h with deciderLeases := by rw [h.deciderLeases] }
  unfold Disk.takeDeciderLease Inner.takeDeciderLease
  rw [h.check]
  cases inner.check binding execution with
  | error refused => exact .of h
  | ok _ =>
    dsimp only
    rw [show disk.deciderLeases[execution]? = inner.deciderLeases[execution]? by
      rw [h.deciderLeases]]
    cases inner.deciderLeases[execution]? with
    | none => exact .of (hput _)
    | some lease =>
      dsimp only
      cases lease.heldBy holder now || lease.expired now with
      | true => exact .of (hput _)
      | false => exact .of h

theorem releaseDeciderLease (execution holder : String) (now : OffsetDateTime) :
    Together (disk.releaseDeciderLease binding execution holder now)
      (inner.releaseDeciderLease binding execution holder now) := by
  unfold Disk.releaseDeciderLease Inner.releaseDeciderLease
  rw [h.check, h.deciderLeases]
  cases inner.check binding execution with
  | error refused => exact .of h
  | ok _ =>
    dsimp only
    cases (inner.deciderLeases[execution]?).any fun lease => lease.heldBy holder now with
    | true => exact .of { h with deciderLeases := rfl }
    | false => exact .of h

theorem claimAttempt (filter : ClaimFilter) (owner : String) (now : OffsetDateTime) :
    Together (disk.claimAttempt binding filter owner now)
      (inner.claimAttempt binding filter owner now) := by
  unfold Disk.claimAttempt Inner.claimAttempt
  simp only [h.attempts, h.admits]
  cases (BTreeMap.values inner.attempts).find? fun row =>
      row.isClaimable now && filter.matches row && inner.admits binding row.key.executionId with
  | none => exact .of h
  | some found =>
    dsimp only
    cases inner.attempts[found.key]? with
    | none => exact .of h
    | some row => exact .of { h with attempts := rfl }

theorem heartbeat (key : AttemptKey) (owner : String) (now : OffsetDateTime) :
    Together (disk.heartbeat binding key owner now) (inner.heartbeat binding key owner now) := by
  unfold Disk.heartbeat Inner.heartbeat
  simp only [h.attempts, h.check]
  cases inner.check binding key.executionId with
  | error refused => exact .of h
  | ok _ =>
    dsimp only
    cases inner.attempts[key]? with
    | none => exact .of h
    | some row =>
      dsimp only
      cases row.isHeldBy owner now with
      | true => exact .of { h with attempts := rfl }
      | false => exact .of h

theorem advanceCheckpoint (processor : String) (cursor : Checkpoint) :
    Together (disk.advanceCheckpoint binding processor cursor)
      (inner.advanceCheckpoint binding processor cursor) := by
  unfold Disk.advanceCheckpoint Inner.advanceCheckpoint
  cases binding.refuseInstanceWide "advance a processor checkpoint" with
  | error refused => exact .of h
  | ok _ => exact .of { h with checkpoints := by rw [h.checkpoints] }

end

/-! ### Slots -/

variable {rows : List SlotRecord}

/-- One slot written: its definition's file holds it in place of what it held for it. -/
theorem put_slot (h : Mirrors disk inner) {record : SlotRecord}
    (hrows : ∀ row, row ∈ rows ↔
      row = record ∨ row ∈ disk.readSlots record.key.file ∧ row.key ≠ record.key)
    (hkeys : (rows.map (·.key)).Nodup) :
    Mirrors { disk with slots := disk.slots.insert record.key.file rows }
      { inner with slots := inner.slots.insert record.key record } := by
  have hread : ∀ file, ({ disk with slots := disk.slots.insert record.key.file rows } :
      Disk β).readSlots file = if record.key.file = file then rows else disk.readSlots file := by
    intro file
    unfold Disk.readSlots
    rw [Table.getElem?_insert]
    split <;> rfl
  refine { h with slots := ?_, slotKeys := ?_, keyed := ?_ }
  · intro file row
    rw [hread, Table.getElem?_insert]
    by_cases hfile : record.key.file = file
    · subst hfile
      rw [if_pos rfl, hrows, h.slots]
      by_cases hkey : record.key = row.key
      · simp [hkey, eq_comm]
      · have hne : row ≠ record := fun heq => hkey (by rw [heq])
        have hkey' : ¬ row.key = record.key := fun heq => hkey heq.symm
        simp [hkey, hne, hkey']
    · rw [if_neg hfile, h.slots]
      refine and_congr_right fun hrow => ?_
      have hkey : record.key ≠ row.key := fun heq => hfile (by rw [heq, hrow])
      rw [if_neg hkey]
  · intro file
    rw [hread]
    split
    · exact hkeys
    · exact h.slotKeys file
  · intro key row hrow
    rw [Table.getElem?_insert] at hrow
    split at hrow
    · rename_i hkey
      rw [← Option.some.inj hrow, hkey]
    · exact h.keyed key row hrow

theorem mem_putSlot {record row : SlotRecord} :
    row ∈ Disk.putSlot rows record ↔ row = record ∨ row ∈ rows ∧ row.key ≠ record.key := by
  unfold Disk.putSlot
  rw [(perm_insertionSort _ _).mem_iff]
  simp [or_comm]

theorem nodup_putSlot (hkeys : (rows.map (·.key)).Nodup) (record : SlotRecord) :
    ((Disk.putSlot rows record).map (·.key)).Nodup := by
  have hperm := (perm_insertionSort (fun a b : SlotRecord => a.key.slot ≤ b.key.slot)
    (rows.filter (fun row => row.key != record.key) ++ [record])).map (·.key)
  unfold Disk.putSlot
  rw [hperm.nodup_iff, map_append, nodup_append]
  refine ⟨hkeys.sublist (List.filter_sublist.map _), by simp, ?_⟩
  intro a ha b hb heq
  obtain ⟨row, hrow, rfl⟩ := mem_map.mp ha
  have hb : b = record.key := by simpa using hb
  simp [heq, hb] at hrow

theorem admitSlot (h : Mirrors disk inner) (request : SlotAdmissionRequest) :
    Together (disk.admitSlot binding request) (inner.admitSlot binding request) := by
  unfold Disk.admitSlot Inner.admitSlot
  cases binding.refuseInstanceWide "admit a schedule slot" with
  | error refused => exact .of h
  | ok _ =>
    dsimp only
    rw [h.find_slot, show BTreeMap.values disk.projections = BTreeMap.values inner.projections by
      rw [h.projections]]
    cases heldAnswer inner.slots[request.key]? request.now with
    | some answer => exact .of h
    | none =>
      dsimp only
      cases (if request.overlap == .skip then
          runningOf (BTreeMap.values inner.projections) request.key.definitionName else none) with
      | some running => exact .of h
      | none =>
        let record := SlotRecord.admitted request.key request.owner request.now
          (inner.slots[request.key]?.bind fun record => record.detail)
        have hkeys : ((disk.readSlots record.key.file).map (·.key)).Nodup := h.slotKeys _
        exact .of (h.put_slot (fun _ => mem_putSlot) (nodup_putSlot hkeys record))

theorem map_changeSlot {key : SlotKey} {change : SlotRecord → SlotRecord}
    (hchange : ∀ record, (change record).key = record.key) (rows : List SlotRecord) :
    (Disk.changeSlot key change rows).map (·.key) = rows.map (·.key) := by
  induction rows with
  | nil => rfl
  | cons row rows ih =>
    unfold Disk.changeSlot
    split
    · simp [hchange]
    · simp [ih]

theorem mem_changeSlot {key : SlotKey} {change : SlotRecord → SlotRecord}
    (hkeys : (rows.map (·.key)).Nodup) {record : SlotRecord} (hrecord : record ∈ rows)
    (hkey : record.key = key) {row : SlotRecord} :
    row ∈ Disk.changeSlot key change rows ↔
      row = change record ∨ row ∈ rows ∧ row.key ≠ key := by
  induction rows with
  | nil => simp at hrecord
  | cons first rows ih =>
    rw [map_cons, nodup_cons] at hkeys
    unfold Disk.changeSlot
    by_cases hfirst : first.key = key
    · have heq : record = first := by
        rcases mem_cons.mp hrecord with heq | hmem
        · exact heq
        · exact absurd (mem_map.mpr ⟨record, hmem, by rw [hkey, hfirst]⟩) hkeys.1
      have hrest : ∀ other ∈ rows, other.key ≠ key := fun other hmem hother =>
        hkeys.1 (mem_map.mpr ⟨other, hmem, by rw [hother, hfirst]⟩)
      subst heq
      rw [if_pos (by simpa using hfirst), mem_cons, mem_cons]
      refine or_congr_right ⟨fun hmem => ⟨.inr hmem, hrest row hmem⟩, ?_⟩
      rintro ⟨rfl | hmem, hne⟩
      · exact absurd hkey hne
      · exact hmem
    · have hmem : record ∈ rows := by
        rcases mem_cons.mp hrecord with heq | hmem
        · exact absurd (heq ▸ hkey) hfirst
        · exact hmem
      rw [if_neg (by simpa using hfirst), mem_cons, mem_cons, ih hkeys.2 hmem]
      constructor
      · rintro (rfl | rfl | ⟨hrow, hne⟩)
        · exact .inr ⟨.inl rfl, hfirst⟩
        · exact .inl rfl
        · exact .inr ⟨.inr hrow, hne⟩
      · rintro (rfl | ⟨rfl | hrow, hne⟩)
        · exact .inr (.inl rfl)
        · exact .inl rfl
        · exact .inr (.inr ⟨hrow, hne⟩)

@[simp] theorem key_settle (record : SlotRecord) (settlement : SlotSettlement)
    (now : OffsetDateTime) : (record.settle settlement now).key = record.key := by
  cases settlement <;> rfl

theorem settleSlot (h : Mirrors disk inner) (key : SlotKey) (owner : String)
    (settlement : SlotSettlement) (now : OffsetDateTime) :
    Together (disk.settleSlot binding key owner settlement now)
      (inner.settleSlot binding key owner settlement now) := by
  unfold Disk.settleSlot Inner.settleSlot
  cases binding.refuseInstanceWide "settle a schedule slot" with
  | error refused => exact .of h
  | ok _ =>
    dsimp only
    rw [h.find_slot]
    cases hheld : inner.slots[key]? with
    | none => exact .of h
    | some record =>
      have hkey := h.keyed key record hheld
      have hmem : record ∈ disk.readSlots key.file :=
        (h.slots _ record).mpr ⟨by rw [hkey], by rw [hkey, hheld]⟩
      have hsame : (record.settle settlement now).key = key := by rw [key_settle, hkey]
      let settled := Disk.changeSlot key (fun record => record.settle settlement now)
        (disk.readSlots key.file)
      have hrows : ∀ row, row ∈ settled ↔ row = record.settle settlement now ∨
          row ∈ disk.readSlots (record.settle settlement now).key.file ∧
            row.key ≠ (record.settle settlement now).key := fun row => by
        rw [hsame, mem_changeSlot (h.slotKeys _) hmem hkey]
      have hkeys : (settled.map (·.key)).Nodup := by
        rw [map_changeSlot fun record => key_settle ..]
        exact h.slotKeys _
      have hput := h.put_slot hrows hkeys
      rw [hsame] at hput
      dsimp only
      split
      · exact .of h
      · exact .of hput

end Mirrors

end Writes

end Aiwatcher.Store
