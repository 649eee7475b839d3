import Rc700.Library.Run
import Rc700.Netboot.Dispatch

/-!
# Coherent reads

What a client may expect to read of a file is what was last written to each record, and
else what the file held when it came to be.  `Shelf` keeps account of that: the writes to
each file go with it through RENAME, and DELETE uncovers the file of the host.

READ SEQ reads the session cache, and RANDOM READ what stands behind it.  They agree, and
read what the account says, as long as the cache of an open file is what stands behind it
(`Coherent`).  All handlers restore that but RANDOM WRITE, which leaves the cache as it was
(`randomWrite_incoherent`).
-/

namespace Rc700
namespace Netboot

open Library

/-! ### The account of the files -/

/-- What is held under a name: what it held at first, and the writes since, latest first. -/
structure Held where
  original : List Byte
  history : List (RecordWrite Byte)

structure Shelf where
  /-- The files of the host, under their names now. -/
  disk : Key → Option (List Byte)
  /-- The files that a client sees. -/
  held : Key → Option Held

inductive Change
  | make (key : Key)
  | write (key : Key) (record : Nat) (sector : List Byte)
  | delete (key : Key)
  | rename (old new : Key)

def move {β : Type} (old new : Key) (table : Key → Option β) : Key → Option β :=
  Function.update (Function.update table old none) new (table old)

def Shelf.change (shelf : Shelf) : Change → Shelf
  | .make key => { shelf with held := Function.update shelf.held key (some ⟨[], []⟩) }
  | .write key record sector =>
      { shelf with
        held := Function.update shelf.held key ((shelf.held key).map fun h =>
          ⟨h.original, (record, sector) :: h.history⟩) }
  | .delete key =>
      { shelf with
        held := Function.update shelf.held key ((shelf.disk key).map fun c => ⟨c, []⟩) }
  | .rename old new => ⟨move old new shelf.disk, move old new shelf.held⟩

/-- What a request changes, if it is not refused. -/
def changeOf (fnc : Byte) (data : List Byte) : Option Change :=
  let fcb := fcbOf data
  match fnc with
  | 22#8 => some (.make (fcbKey fcb))
  | 21#8 => some (.write (fcbKey fcb) (seqRecord fcb) (sectorOf data))
  | 34#8 => some (.write (fcbKey fcb) (randomRecord fcb) (sectorOf data))
  | 19#8 => some (.delete (fcbKey fcb))
  | 23#8 => some (.rename (fcbKey fcb) (newKey fcb))
  | _ => none

/-- A reply with the status of an error. -/
def Refused (reply : Option (List Byte)) : Prop := reply.bind List.head? = some 0xFF#8

instance (reply : Option (List Byte)) : Decidable (Refused reply) :=
  inferInstanceAs (Decidable (_ = _))

/-- The account, after a request and its reply. -/
def Shelf.observe (shelf : Shelf) (fnc : Byte) (data : List Byte) (reply : Option (List Byte)) :
    Shelf :=
  if Refused reply then shelf
  else
    match changeOf fnc data with
    | none => shelf
    | some change => shelf.change change

/-! ### Runs -/

structure Request where
  fnc : Byte
  data : List Byte

section

variable (host : Path → Option (List Byte))

/-- A request is handled, and the account kept. -/
def serve (c : State × Shelf) (r : Request) : State × Shelf :=
  let (reply, s) := dispatchSndmsg host r.fnc r.data c.1
  (s, c.2.observe r.fnc r.data reply)

/-- The account at the start of the server. -/
def Shelf.start (s : State) : Shelf where
  disk key := (s.fileMap.lookup key).bind host
  held key := (fileContent host s key).map fun content => ⟨content, []⟩

/-- What is read of a record is what was last written to it, and else it begins with what the
file held at first. -/
def Held.Shows (h : Held) (record : Nat) (sector : List Byte) : Prop :=
  match lastWritten h.history record with
  | some data => sector = data
  | none => pread h.original (128 * record) 128 <+: sector

/-- There is no such record. -/
def Held.Ends (h : Held) (record : Nat) : Prop :=
  lastWritten h.history record = none ∧ h.original.length ≤ 128 * record

/-- A position that another one follows. -/
def HasNext (fcb : List Byte) : Prop := ¬(fcbByte fcb 12 = 255 ∧ 127 ≤ fcbByte fcb 32)

instance (fcb : List Byte) : Decidable (HasNext fcb) := inferInstanceAs (Decidable (¬_))

/-- READ SEQ and RANDOM READ of a record return the same 128 bytes, as the account has them,
or both report the end of the file. -/
def ReadsAgree (s : State) (h : Held) (record : Nat) (seqData randomData : List Byte) : Prop :=
  (∃ fcb fcb' sector, (readSeq seqData s).1 = some (0x00#8 :: fcb ++ sector) ∧
    (randomRead host randomData s).1 = some (0x00#8 :: fcb' ++ sector) ∧
    fcb.length = 36 ∧ fcb'.length = 36 ∧ sector.length = 128 ∧ h.Shows record sector) ∨
  (∃ rest rest', (readSeq seqData s).1 = some (0x01#8 :: rest) ∧
    (randomRead host randomData s).1 = some (0x01#8 :: rest') ∧ h.Ends record)

/-- Of every open file, every record reads as it should. -/
def ReadsCoherent (s : State) (shelf : Shelf) : Prop :=
  ∀ key ∈ s.openFiles, ∃ h, shelf.held key = some h ∧
    ∀ seqData randomData, fcbKey (paddedFcb seqData) = key → fcbKey (fcbOf randomData) = key →
      seqRecord (paddedFcb seqData) = randomRecord (fcbOf randomData) →
      HasNext (paddedFcb seqData) →
      ReadsAgree host s h (randomRecord (fcbOf randomData)) seqData randomData

/-- The content is what is held under the name. -/
structure Represents (content : List Byte) (h : Held) : Prop where
  holds : HoldsOver 128 0#8 h.original content h.history
  sectors : ∀ w ∈ h.history, w.2.length = 128

/-- The cache of an open file is what stands behind it, which is as the account has it. -/
structure Coherent (s : State) (shelf : Shelf) : Prop where
  disk : ∀ key, shelf.disk key = (s.fileMap.lookup key).bind host
  held : ∀ key, Option.Rel Represents (fileContent host s key) (shelf.held key)
  cache : ∀ key content, s.openFiles.lookup key = some content →
    fileContent host s key = some content

end

variable {host : Path → Option (List Byte)} {s s' : State} {shelf : Shelf} {key : Key}

/-! ### Sectors -/

theorem length_sectorOf (data : List Byte) : (sectorOf data).length = 128 := by
  unfold sectorOf
  split
  · rw [List.length_take, List.length_drop]
    omega
  · rw [ljust, List.length_append, List.length_replicate, List.length_drop]
    omega

theorem length_sectorAt (content : List Byte) (record : Nat) :
    (sectorAt content record).length = 128 := by
  rw [sectorAt, ljust, List.length_append, List.length_replicate, pread, List.length_take]
  omega

/-- The assignment of a sector is a write at an offset. -/
theorem storeSector_eq (buf : List Byte) (record : Nat) {sector : List Byte}
    (hlen : sector.length = 128) :
    storeSector buf record sector = pwrite 0#8 buf (128 * record) sector := by
  have hne : sector ≠ [] := List.ne_nil_of_length_pos (by omega)
  unfold storeSector pwrite
  rw [if_neg hne, Nat.mul_comm record 128, hlen]
  dsimp only
  have hfront : (buf ++ List.replicate (128 * record + 128 - buf.length) 0#8).take (128 * record) =
      buf.take (128 * record) ++ List.replicate (128 * record - buf.length) 0#8 := by
    rw [List.take_append, List.take_replicate]
    congr 2
    omega
  have hback : (buf ++ List.replicate (128 * record + 128 - buf.length) 0#8).drop
      (128 * record + 128) = buf.drop (128 * record + 128) := by
    rw [List.drop_append, List.drop_replicate]
    have hnone : 128 * record + 128 - buf.length - (128 * record + 128 - buf.length) = 0 := by omega
    rw [hnone, List.replicate_zero, List.append_nil]
  rw [hfront, hback]

theorem length_paddedFcb (data : List Byte) : (paddedFcb data).length = 36 := by
  unfold paddedFcb
  split
  · rw [List.length_take, List.length_drop]
    omega
  · rw [ljust, List.length_append, List.length_replicate, List.length_drop]
    omega

theorem length_fcbOf (data : List Byte) : (fcbOf data).length = 36 := by
  unfold fcbOf
  split
  · rw [List.length_take, List.length_drop]
    omega
  · exact List.length_replicate

/-- What is there already may be written again. -/
theorem storeSector_same {buf : List Byte} {record : Nat} {sector : List Byte}
    (hlen : sector.length = 128) (hsame : pread buf (128 * record) 128 = sector) :
    storeSector buf record sector = buf := by
  have hcount := congrArg List.length hsame
  rw [pread, List.length_take, List.length_drop, hlen] at hcount
  have hne : sector ≠ [] := List.ne_nil_of_length_pos (by omega)
  rw [storeSector_eq buf record hlen, pwrite, if_neg hne, hlen, ← hsame]
  have hgap : 128 * record - buf.length = 0 := by omega
  rw [hgap, List.replicate_zero, List.append_nil, pread, List.append_assoc,
    ← List.drop_drop, List.take_append_drop, List.take_append_drop]

theorem Represents.write {content : List Byte} {h : Held} (hrep : Represents content h)
    (record : Nat) {sector : List Byte} (hlen : sector.length = 128) :
    Represents (storeSector content record sector)
      ⟨h.original, (record, sector) :: h.history⟩ where
  holds := by
    rw [storeSector_eq content record hlen]
    exact hrep.holds.write (by decide) record hlen
  sectors := by
    intro w hw
    rcases List.mem_cons.mp hw with rfl | hw
    · exact hlen
    · exact hrep.sectors w hw

theorem Represents.start (content : List Byte) : Represents content ⟨content, []⟩ where
  holds := .nil 128 0#8 content
  sectors := fun _ hw => absurd hw List.not_mem_nil

/-- A record shows what the account has. -/
theorem Represents.shows {content : List Byte} {h : Held} (hrep : Represents content h)
    (record : Nat) : h.Shows record (sectorAt content record) := by
  have hmul : record * 128 = 128 * record := Nat.mul_comm record 128
  unfold Held.Shows
  cases hwritten : lastWritten h.history record with
  | none =>
      rw [sectorAt, hmul, ljust]
      exact (hrep.holds.read_original hwritten).trans (List.prefix_append _ _)
  | some data =>
      have hlen := hrep.sectors _ (lastWritten_mem hwritten)
      have hread := hrep.holds.read_written hwritten hlen
      show sectorAt content record = data
      rw [sectorAt, hmul, hread, ljust, hlen]
      exact List.append_nil data

/-! ### What a handler keeps -/

theorem fileContent_writes (hmap : s'.fileMap = s.fileMap) (hwrites : s'.writes = s.writes)
    (k : Key) : fileContent host s' k = fileContent host s k := by
  unfold fileContent
  rw [hmap, hwrites]

theorem fileContent_insert {buf : List Byte} (hmap : s'.fileMap = s.fileMap)
    (hwrites : s'.writes = s.writes.insert key buf) (k : Key) :
    fileContent host s' k = if k = key then some buf else fileContent host s k := by
  unfold fileContent
  rw [hmap, hwrites]
  by_cases hk : k = key
  · subst hk
    rw [AList.lookup_insert, if_pos rfl]
  · rw [AList.lookup_insert_ne hk, if_neg hk]

theorem fileContent_erase (openFiles : Table) (k : Key) :
    fileContent host { s with writes := s.writes.erase key, openFiles := openFiles } k =
      if k = key then (s.fileMap.lookup key).bind host else fileContent host s k := by
  unfold fileContent
  dsimp only
  by_cases hk : k = key
  · subst hk
    rw [AList.lookup_erase, if_pos rfl]
  · rw [AList.lookup_erase_ne hk, if_neg hk]

theorem Coherent.held_of_content (hs : Coherent host s shelf) {content : List Byte}
    (hcontent : fileContent host s key = some content) :
    ∃ h, shelf.held key = some h ∧ Represents content h := by
  have hrel := hs.held key
  rw [hcontent] at hrel
  generalize shelf.held key = held at hrel
  cases hrel with
  | some hrep => exact ⟨_, rfl, hrep⟩

/-- Nothing but the cache changes. -/
theorem Coherent.cached (hs : Coherent host s shelf) (hmap : s'.fileMap = s.fileMap)
    (hwrites : s'.writes = s.writes)
    (hcache : ∀ k content, s'.openFiles.lookup k = some content →
      fileContent host s k = some content) : Coherent host s' shelf where
  disk := by
    intro k
    rw [hmap]
    exact hs.disk k
  held := by
    intro k
    rw [fileContent_writes hmap hwrites]
    exact hs.held k
  cache := by
    intro k content hopen
    rw [fileContent_writes hmap hwrites]
    exact hcache k content hopen

/-- One file is written, and its cache, if it is open, is what was written. -/
theorem Coherent.stored (hs : Coherent host s shelf) {buf : List Byte} {h : Held}
    (hmap : s'.fileMap = s.fileMap) (hwrites : s'.writes = s.writes.insert key buf)
    (hrep : Represents buf h)
    (hcache : ∀ k content, s'.openFiles.lookup k = some content →
      if k = key then content = buf else s.openFiles.lookup k = some content) :
    Coherent host s' { shelf with held := Function.update shelf.held key (some h) } where
  disk := by
    intro k
    rw [hmap]
    exact hs.disk k
  held := by
    intro k
    rw [fileContent_insert hmap hwrites]
    dsimp only
    by_cases hk : k = key
    · subst hk
      rw [if_pos rfl, Function.update_self]
      exact .some hrep
    · rw [if_neg hk, Function.update_of_ne hk]
      exact hs.held k
  cache := by
    intro k content hopen
    have hcache := hcache k content hopen
    rw [fileContent_insert hmap hwrites]
    by_cases hk : k = key
    · rw [if_pos hk] at hcache ⊢
      rw [hcache]
    · rw [if_neg hk] at hcache ⊢
      exact hs.cache k content hcache

theorem Shelf.observe_refused {fnc : Byte} {data : List Byte} {reply : Option (List Byte)}
    (hrefused : Refused reply) : shelf.observe fnc data reply = shelf := if_pos hrefused

theorem Shelf.observe_change {fnc : Byte} {data : List Byte} {reply : Option (List Byte)}
    {change : Change} (hrefused : ¬Refused reply) (hchange : changeOf fnc data = some change) :
    shelf.observe fnc data reply = shelf.change change := by
  unfold Shelf.observe
  rw [if_neg hrefused, hchange]

theorem not_refused_ok (rest : List Byte) : ¬Refused (some (0x00#8 :: rest)) := by
  simp [Refused]

theorem refused_error (rest : List Byte) : Refused (some (0xFF#8 :: rest)) := rfl

/-! ### Handlers -/

theorem openFile_coherent (hs : Coherent host s shelf) (data : List Byte) :
    Coherent host (openFile host data s).2 shelf := by
  unfold openFile
  dsimp only
  split
  · exact hs
  · rename_i content hcontent
    refine hs.cached rfl rfl fun k content' hopen => ?_
    by_cases hk : k = fcbKey (fcbOf data)
    · rw [hk, AList.lookup_insert] at hopen
      rw [hk, hcontent, hopen]
    · rw [AList.lookup_insert_ne hk] at hopen
      exact hs.cache k content' hopen

theorem closeFile_coherent (hs : Coherent host s shelf) (data : List Byte) :
    Coherent host (closeFile data s).2 shelf := by
  have herased : ∀ k content,
      (s.openFiles.erase (fcbKey (paddedFcb data))).lookup k = some content →
        fileContent host s k = some content := by
    intro k content hopen
    by_cases hk : k = fcbKey (paddedFcb data)
    · rw [hk, AList.lookup_erase] at hopen
      exact nomatch hopen
    · rw [AList.lookup_erase_ne hk] at hopen
      exact hs.cache k content hopen
  unfold closeFile
  dsimp only
  split
  · exact hs.cached rfl rfl herased
  · split
    · exact hs.cached rfl rfl herased
    · exact hs.cached rfl rfl herased

theorem not_refused_fcbReply (data : List Byte) (records : Byte) :
    ¬Refused (fcbReply data records) := by
  unfold fcbReply Refused
  split
  · simp
  · simp

theorem makeFile_coherent (hs : Coherent host s shelf) (data : List Byte) :
    Coherent host (makeFile data s).2 (shelf.observe 22#8 data (makeFile data s).1) := by
  unfold makeFile
  by_cases hthere : fcbKey (fcbOf data) ∈ s.fileMap
  · rw [if_pos hthere, Shelf.observe_refused (refused_error [])]
    exact hs
  · rw [if_neg hthere, Shelf.observe_change (not_refused_fcbReply data 0#8) rfl]
    refine hs.stored rfl rfl (Represents.start []) fun k content hopen => ?_
    by_cases hk : k = fcbKey (fcbOf data)
    · rw [hk, AList.lookup_insert] at hopen
      rw [if_pos hk]
      exact (Option.some.inj hopen).symm
    · rw [AList.lookup_insert_ne hk] at hopen
      rwa [if_neg hk]

theorem fileContent_of_writes {buf : List Byte} (hbuf : s.writes.lookup key = some buf) :
    fileContent host s key = some buf := by
  unfold fileContent
  rw [hbuf]

theorem advance_isSome {fcb : List Byte} (hnext : HasNext fcb) : (advance fcb).isSome := by
  have hex : fcbByte fcb 12 < 256 := BitVec.isLt _
  unfold HasNext at hnext
  unfold advance
  dsimp only
  by_cases hlast : 128 ≤ fcbByte fcb 32 + 1
  · rw [if_pos hlast, if_pos (show fcbByte fcb 12 + 1 < 256 by omega)]
    rfl
  · rw [if_neg hlast, if_pos (show fcbByte fcb 12 < 256 from hex)]
    rfl

theorem length_advance {fcb next : List Byte} (hadvance : advance fcb = some next) :
    next.length = fcb.length := by
  unfold advance at hadvance
  dsimp only at hadvance
  split at hadvance
  · split at hadvance
    · cases hadvance
      rw [List.length_set, List.length_set]
    · exact nomatch hadvance
  · split at hadvance
    · cases hadvance
      rw [List.length_set, List.length_set]
    · exact nomatch hadvance

theorem writeSeq_coherent (hs : Coherent host s shelf) {data : List Byte}
    (hnext : HasNext (fcbOf data)) :
    Coherent host (writeSeq data s).2 (shelf.observe 21#8 data (writeSeq data s).1) := by
  obtain ⟨fcb, hfcb⟩ := Option.isSome_iff_exists.mp (advance_isSome hnext)
  unfold writeSeq
  dsimp only
  cases hbuf : s.writes.lookup (fcbKey (fcbOf data)) with
  | none =>
      rw [Shelf.observe_refused (refused_error _)]
      exact hs
  | some buf =>
      dsimp only
      rw [hfcb, Option.map_some, Shelf.observe_change (not_refused_ok fcb) rfl]
      obtain ⟨h, hheld, hrep⟩ := hs.held_of_content (fileContent_of_writes hbuf)
      rw [Shelf.change, hheld]
      refine hs.stored rfl rfl (hrep.write _ (length_sectorOf data)) fun k content hopen => ?_
      by_cases hk : k = fcbKey (fcbOf data)
      · rw [hk, AList.lookup_insert] at hopen
        rw [if_pos hk]
        exact (Option.some.inj hopen).symm
      · rw [AList.lookup_insert_ne hk] at hopen
        rwa [if_neg hk]

/-- The record that RANDOM WRITE addresses holds the sector already. -/
def WritesBack (host : Path → Option (List Byte)) (s : State) (data : List Byte) : Prop :=
  ((fileContent host s (fcbKey (fcbOf data))).map
    (pread · (128 * randomRecord (fcbOf data)) 128)) = some (sectorOf data)

instance (s : State) (data : List Byte) : Decidable (WritesBack host s data) :=
  inferInstanceAs (Decidable (_ = _))

/-- RANDOM WRITE keeps the cache of a file that is not open, or where it changes nothing. -/
theorem randomWrite_coherent (hs : Coherent host s shelf) {data : List Byte}
    (hclosed : fcbKey (fcbOf data) ∈ s.openFiles → WritesBack host s data) :
    Coherent host (randomWrite host data s).2
      (shelf.observe 34#8 data (randomWrite host data s).1) := by
  unfold randomWrite
  dsimp only
  cases hcontent : fileContent host s (fcbKey (fcbOf data)) with
  | none =>
      rw [Shelf.observe_refused (refused_error _)]
      exact hs
  | some content =>
      -- a bytearray of the file, where there is one, is what `fileContent` has found
      have hbuf : (s.writes.lookup (fcbKey (fcbOf data))).getD content = content := by
        unfold fileContent at hcontent
        cases hwrites : s.writes.lookup (fcbKey (fcbOf data)) with
        | none => rfl
        | some buf =>
            rw [hwrites] at hcontent
            exact Option.some.inj hcontent
      dsimp only
      rw [hbuf, Shelf.observe_change (not_refused_ok _) rfl]
      obtain ⟨h, hheld, hrep⟩ := hs.held_of_content hcontent
      rw [Shelf.change, hheld]
      refine hs.stored rfl rfl (hrep.write _ (length_sectorOf data)) fun k content' hopen => ?_
      -- the file that is written, where it is open as well, or another one
      by_cases hk : k = fcbKey (fcbOf data)
      · rw [if_pos hk]
        subst hk
        have hback := hclosed (AList.lookup_isSome.mp (Option.isSome_iff_exists.mpr ⟨_, hopen⟩))
        rw [WritesBack, hcontent] at hback
        rw [storeSector_same (length_sectorOf data) (Option.some.inj hback)]
        have hsame := hs.cache _ content' hopen
        rw [hcontent] at hsame
        exact (Option.some.inj hsame).symm
      · rwa [if_neg hk]

theorem deleteFile_coherent (hs : Coherent host s shelf) (data : List Byte) :
    Coherent host (deleteFile data s).2 (shelf.observe 19#8 data (deleteFile data s).1) := by
  unfold deleteFile
  by_cases hthere : fcbKey (fcbOf data) ∈ s.writes
  · rw [if_pos hthere, Shelf.observe_change (not_refused_ok _) rfl]
    dsimp only
    refine ⟨hs.disk, fun k => ?_, fun k content hopen => ?_⟩
    · rw [fileContent_erase, Shelf.change]
      dsimp only
      by_cases hk : k = fcbKey (fcbOf data)
      · rw [if_pos hk, hk, Function.update_self, hs.disk]
        -- the file of the host comes to light, where there is one
        cases (s.fileMap.lookup (fcbKey (fcbOf data))).bind host with
        | none => exact .none
        | some content => exact .some (Represents.start content)
      · rw [if_neg hk, Function.update_of_ne hk]
        exact hs.held k
    · rw [fileContent_erase]
      by_cases hk : k = fcbKey (fcbOf data)
      · rw [hk] at hopen
        exact nomatch (AList.lookup_erase _ s.openFiles).symm.trans hopen
      · rw [if_neg hk]
        exact hs.cache k content ((AList.lookup_erase_ne hk).symm.trans hopen)
  · rw [if_neg hthere, Shelf.observe_refused (refused_error _)]
    exact hs

/-- A key that is moved to one that is not there. -/
theorem lookup_moveKey {β : Type} (old : Key) {new : Key} {table : AList (fun _ : Key => β)}
    (hnew : table.lookup new = none) :
    (fun k => (moveKey old new table).lookup k) = move old new (fun k => table.lookup k) := by
  funext k
  unfold moveKey move
  cases hold : table.lookup old with
  | none =>
      dsimp only
      rw [hold]
      by_cases hk : k = new
      · rw [hk, Function.update_self]
        exact hnew
      · rw [Function.update_of_ne hk]
        by_cases hk' : k = old
        · rw [hk', Function.update_self]
          exact hold
        · rw [Function.update_of_ne hk']
  | some v =>
      dsimp only
      rw [hold]
      by_cases hk : k = new
      · rw [hk, Function.update_self]
        exact AList.lookup_insert _
      · rw [Function.update_of_ne hk, AList.lookup_insert_ne hk]
        by_cases hk' : k = old
        · rw [hk', Function.update_self, AList.lookup_erase]
        · rw [Function.update_of_ne hk', AList.lookup_erase_ne hk']

theorem move_new {β : Type} (old new : Key) (table : Key → Option β) :
    move old new table new = table old := Function.update_self ..

theorem move_old {β : Type} {old new : Key} (hne : old ≠ new) (table : Key → Option β) :
    move old new table old = none := by
  rw [move, Function.update_of_ne hne, Function.update_self]

theorem move_other {β : Type} {old new k : Key} (hold : k ≠ old) (hnew : k ≠ new)
    (table : Key → Option β) : move old new table k = table k := by
  rw [move, Function.update_of_ne hnew, Function.update_of_ne hold]

/-- A file moves with its name. -/
theorem fileContent_moveKey {old new : Key} (openFiles : Table)
    (hwrites : s.writes.lookup new = none) (hmap : s.fileMap.lookup new = none) :
    (fileContent host { s with
      writes := moveKey old new s.writes
      openFiles := openFiles
      fileMap := moveKey old new s.fileMap }) = move old new (fileContent host s) := by
  have hwrites' := lookup_moveKey old hwrites
  have hmap' := lookup_moveKey old hmap
  funext k
  unfold fileContent
  dsimp only
  rw [congrFun hwrites' k, congrFun hmap' k]
  by_cases hnew : k = new
  · subst hnew
    rw [move_new, move_new, move_new]
  · by_cases hold : k = old
    · subst hold
      rw [move_old hnew, move_old hnew, move_old hnew]
      rfl
    · rw [move_other hold hnew, move_other hold hnew, move_other hold hnew]

/-- What holds between two tables holds after a move in both. -/
theorem move_rel {β γ : Type} {R : Option β → Option γ → Prop} (hnone : R none none)
    {old new : Key} {table : Key → Option β} {table' : Key → Option γ}
    (hrel : ∀ k, R (table k) (table' k)) (k : Key) :
    R (move old new table k) (move old new table' k) := by
  by_cases hnew : k = new
  · subst hnew
    rw [move_new, move_new]
    exact hrel old
  · by_cases hold : k = old
    · subst hold
      rw [move_old hnew, move_old hnew]
      exact hnone
    · rw [move_other hold hnew, move_other hold hnew]
      exact hrel k

theorem renameFile_coherent (hs : Coherent host s shelf) (data : List Byte) :
    Coherent host (renameFile data s).2 (shelf.observe 23#8 data (renameFile data s).1) := by
  unfold renameFile
  dsimp only
  generalize hold : fcbKey (fcbOf data) = old
  generalize hnew : newKey (fcbOf data) = new
  by_cases hmissing : old ∉ s.writes ∧ old ∉ s.fileMap
  · rw [if_pos hmissing, Shelf.observe_refused (refused_error _)]
    exact hs
  · rw [if_neg hmissing]
    by_cases hthere : new ∈ s.writes ∨ new ∈ s.fileMap
    · rw [if_pos hthere, Shelf.observe_refused (refused_error _)]
      exact hs
    · rw [if_neg hthere, Shelf.observe_change (not_refused_ok _) rfl, hold, hnew]
      obtain ⟨hwrites, hmap⟩ := not_or.mp hthere
      have hwrites' := AList.lookup_eq_none.mpr hwrites
      have hmap' := AList.lookup_eq_none.mpr hmap
      -- what is not there is not open
      have hopen' : s.openFiles.lookup new = none := by
        cases hopen : s.openFiles.lookup new with
        | none => rfl
        | some content =>
            have hcontent := hs.cache new content hopen
            unfold fileContent at hcontent
            rw [hwrites', hmap'] at hcontent
            exact nomatch hcontent
      refine ⟨fun k => ?_, fun k => ?_, fun k content hopen => ?_⟩
      · rw [show (_ : AList _).lookup k = _ from congrFun (lookup_moveKey old hmap') k]
        exact move_rel (R := fun disk path => disk = path.bind host) rfl hs.disk k
      · rw [fileContent_moveKey _ hwrites' hmap']
        exact move_rel .none hs.held k
      · rw [fileContent_moveKey _ hwrites' hmap']
        rw [congrFun (lookup_moveKey old hopen') k] at hopen
        exact move_rel (R := fun opened stored => ∀ content, opened = some content →
          stored = some content) (fun _ h => h) hs.cache k content hopen

/-! ### Requests -/

/-- The requests that keep the reads coherent: RANDOM WRITE of a file that is not open, or of
what it holds already, and WRITE SEQ at a position that another one follows. -/
def Keeps (host : Path → Option (List Byte)) (s : State) (r : Request) : Prop :=
  (r.fnc = 21#8 → HasNext (fcbOf r.data)) ∧
    (r.fnc = 34#8 → fcbKey (fcbOf r.data) ∈ s.openFiles → WritesBack host s r.data)

instance (s : State) (r : Request) : Decidable (Keeps host s r) :=
  inferInstanceAs (Decidable (_ ∧ _))

theorem Shelf.observe_none {fnc : Byte} {data : List Byte} (reply : Option (List Byte))
    (hchange : changeOf fnc data = none) : shelf.observe fnc data reply = shelf := by
  unfold Shelf.observe
  rw [hchange]
  split
  · rfl
  · rfl

theorem searchReply_coherent (hs : Coherent host s shelf) :
    Coherent host (searchReply host s).2 shelf := by
  unfold searchReply
  split
  · exact hs
  · exact hs.cached rfl rfl hs.cache

/-- One case for each function. -/
theorem dispatchSndmsg_coherent (hs : Coherent host s shelf) {r : Request}
    (hkeeps : Keeps host s r) :
    Coherent host (dispatchSndmsg host r.fnc r.data s).2
      (shelf.observe r.fnc r.data (dispatchSndmsg host r.fnc r.data s).1) := by
  obtain ⟨fnc, data⟩ := r
  obtain ⟨hnext, hclosed⟩ := hkeeps
  dsimp only at hnext hclosed ⊢
  unfold dispatchSndmsg
  -- one case for each function, in the order of the source
  split
  · exact hs
  · exact hs
  · rw [Shelf.observe_none _ rfl]
    exact openFile_coherent hs data
  · exact makeFile_coherent hs data
  · exact writeSeq_coherent hs (hnext rfl)
  · rw [Shelf.observe_none _ rfl]
    unfold readSeq
    dsimp only
    split
    · exact hs
    · split
      · exact hs
      · exact hs
  · rw [Shelf.observe_none _ rfl]
    exact closeFile_coherent hs data
  · exact hs
  · rw [Shelf.observe_none _ rfl]
    unfold randomRead
    dsimp only
    split
    · exact hs
    · exact hs
  · exact randomWrite_coherent hs (hclosed rfl)
  · exact deleteFile_coherent hs data
  · exact renameFile_coherent hs data
  · rw [Shelf.observe_none _ rfl]
    exact searchReply_coherent (hs.cached rfl rfl hs.cache)
  · rw [Shelf.observe_none _ rfl]
    exact searchReply_coherent hs
  · exact hs
  · -- no other function changes anything
    rename_i h₁ h₂ h₃ h₄ h₅ h₆ h₇ h₈ h₉ h₁₀ h₁₁ h₁₂ h₁₃ h₁₄ h₁₅
    have hnone : changeOf fnc data = none := by
      unfold changeOf
      split
      · exact absurd rfl h₄
      · exact absurd rfl h₅
      · exact absurd rfl h₁₀
      · exact absurd rfl h₁₁
      · exact absurd rfl h₁₂
      · rfl
    rw [Shelf.observe_none _ hnone]
    exact hs

/-- **The two reads agree**, where the cache is what stands behind it. -/
theorem Coherent.reads (hs : Coherent host s shelf) : ReadsCoherent host s shelf := by
  intro key hopen
  obtain ⟨content, hcache⟩ := Option.isSome_iff_exists.mp (AList.lookup_isSome.mpr hopen)
  have hcontent := hs.cache key content hcache
  obtain ⟨h, hheld, hrep⟩ := hs.held_of_content hcontent
  refine ⟨h, hheld, fun seqData randomData hseq hrandom hrecord hnext => ?_⟩
  obtain ⟨next, hadvance⟩ := Option.isSome_iff_exists.mp (advance_isSome hnext)
  subst hseq
  unfold ReadsAgree readSeq randomRead
  simp only [hrandom, hcache, hcontent, hrecord, hadvance, Option.map_some]
  by_cases hend : content.length ≤ randomRecord (fcbOf randomData) * 128
  · right
    rw [if_pos hend, if_neg (Nat.not_lt.mpr hend)]
    rw [Nat.mul_comm] at hend
    exact ⟨_, _, rfl, rfl, hrep.holds.beyond (by decide) hend⟩
  · left
    rw [if_neg hend, if_pos (Nat.not_le.mp hend)]
    refine ⟨next, _, _, rfl, rfl, ?_, ?_, length_sectorAt _ _, ?_⟩
    · exact (length_advance hadvance).trans (length_paddedFcb seqData)
    · exact length_fcbOf randomData
    · exact hrep.shows _

/-! ### Runs -/

theorem Coherent.start (hclosed : s.openFiles = ∅) : Coherent host s (Shelf.start host s) where
  disk := fun _ => rfl
  held := by
    intro key
    unfold Shelf.start
    dsimp only
    cases fileContent host s key with
    | none => exact .none
    | some content => exact .some (Represents.start content)
  cache := by
    intro key content hopen
    rw [hclosed, AList.lookup_empty] at hopen
    exact nomatch hopen

/-- **Coherent reads.**  From the start of the server, with any files of the host and any
overlay, and as long as no RANDOM WRITE changes a file while it is open and no WRITE SEQ stands
at the last position, READ SEQ and RANDOM READ agree on every record of every open file, and
with the account of what was written. -/
theorem boot_reads_coherent (host : Path → Option (List Byte)) (start : State)
    (hclosed : start.openFiles = ∅) (requests : List Request)
    (hkeeps : EveryStep (serve host) (fun c r => Keeps host c.1 r)
      (start, Shelf.start host start) requests) :
    ReadsCoherent host (requests.foldl (serve host) (start, Shelf.start host start)).1
      (requests.foldl (serve host) (start, Shelf.start host start)).2 :=
  have hstep : ∀ (c : State × Shelf) (r : Request), Keeps host c.1 r →
      Coherent host c.1 c.2 → Coherent host (serve host c r).1 (serve host c r).2 :=
    fun _ _ hkeep hs => dispatchSndmsg_coherent hs hkeep
  (foldl_invariant hstep hkeeps (.start hclosed)).reads

/-- A request for record 0 of `DATA.TXT`, with what follows the FCB. -/
def dataRequest (fnc : Byte) (sector : List Byte) : Request :=
  ⟨fnc, [0x00#8, 0x01#8, 0x44#8, 0x41#8, 0x54#8, 0x41#8, 0x20#8, 0x20#8, 0x20#8, 0x20#8, 0x54#8,
    0x58#8, 0x54#8] ++ List.replicate 24 0x00#8 ++ sector⟩

/-- A server without files. -/
def emptyServer : State := ⟨∅, ∅, ∅, ⟨none, []⟩, []⟩

/-- A file is made, written in both ways, the second time when it is closed, and opened. -/
theorem boot_reads_coherent_closed :
    ReadsCoherent (fun _ => none)
      (([dataRequest 22#8 [], dataRequest 21#8 [0x41#8], dataRequest 16#8 [],
        dataRequest 34#8 [0x42#8], dataRequest 15#8 []].foldl (serve fun _ => none)
          (emptyServer, Shelf.start (fun _ => none) emptyServer))).1
      (([dataRequest 22#8 [], dataRequest 21#8 [0x41#8], dataRequest 16#8 [],
        dataRequest 34#8 [0x42#8], dataRequest 15#8 []].foldl (serve fun _ => none)
          (emptyServer, Shelf.start (fun _ => none) emptyServer))).2 :=
  boot_reads_coherent (fun _ => none) emptyServer rfl _ (by decide)

/-- A server with `DATA.TXT` on the host. -/
def dataServer : State := { emptyServer with
  fileMap := (∅ : AList fun _ : Key => Path).insert "DATA    TXT".toList "data.txt".toList }

/-- The file is opened and then written by RANDOM WRITE: READ SEQ still reads the old record. -/
theorem randomWrite_incoherent : ¬∀ (host : Path → Option (List Byte)) (start : State)
    (requests : List Request), start.openFiles = ∅ →
    ReadsCoherent host (requests.foldl (serve host) (start, Shelf.start host start)).1
      (requests.foldl (serve host) (start, Shelf.start host start)).2 := by
  intro hcoherent
  let host : Path → Option (List Byte) := fun _ => some (List.replicate 128 0x41#8)
  let requests := [dataRequest 15#8 [], dataRequest 34#8 (List.replicate 128 0x42#8)]
  let last := (requests.foldl (serve host) (dataServer, Shelf.start host dataServer)).1
  let ask := (dataRequest 20#8 []).data
  obtain ⟨h, -, hreads⟩ := hcoherent host dataServer requests rfl "DATA    TXT".toList
    (by decide +kernel)
  have hagree := hreads ask ask (by decide) (by decide) (by decide)
    (by decide)
  have hdata : (readSeq ask last).1.map (·.take 1) = some [0x00#8] := by decide +kernel
  have hdiffer : (readSeq ask last).1.map (·.drop 37) ≠
      (randomRead host ask last).1.map (·.drop 37) := by decide +kernel
  rcases hagree with ⟨fcb, fcb', sector, hseq, hrandom, hlen, hlen', -⟩ | ⟨rest, -, hseq, -⟩
  · refine hdiffer ?_
    have hback : ∀ fcb : List Byte, fcb.length = 36 →
        (0x00#8 :: fcb ++ sector).drop 37 = sector := by
      intro fcb hlen
      rw [List.cons_append, List.drop_succ_cons, ← hlen, List.drop_left]
    rw [show (readSeq ask last).1 = _ from hseq, show (randomRead host ask last).1 = _ from hrandom,
      Option.map_some, Option.map_some, hback fcb hlen, hback fcb' hlen']
  · rw [show (readSeq ask last).1 = _ from hseq] at hdata
    exact absurd hdata (by simp)

end Netboot
end Rc700
