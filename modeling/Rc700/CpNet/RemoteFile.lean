import Rc700.CpNet.RoundTrip
import Rc700.CpNet.Session

/-!
# A file written and read over the serial line

The client of a sequential file, as a program that calls `cpnet_xact`: MAKE, a WRITE SEQ for each
record, OPEN, and a READ SEQ for each record.  Against `run` of the file server it ends, in every
run, with the records that it has written; they are what the file on the host holds, and no other
file has changed (`file_over_line`).
-/

namespace Rc700
namespace CpNet

open Library Link Snios PathText CpNet.Action

variable {upper : Nat → Text} {slaveid user : Byte} {s s' : Server} {p : Text} {fcb fcb₀ fcb' : Fcb}

/-! ### The client -/

/-- What a request carries behind the FCB. -/
abbrev Rest := { bytes : List Byte // bytes.length ≤ 219 }

/-- A request with the FCB. -/
def fileRequest (fnc user : Byte) (rest : Rest) (fcb : Fcb) : Request where
  fnc := fnc
  siz := BitVec.ofNat 8 (36 + rest.val.length)
  data := fcb.request user rest.val
  length := by
    have hrest := rest.property
    rw [Fcb.length_request, BitVec.toNat_ofNat]
    omega

/-- If the reply reports success, the reply, and the FCB after it. -/
def ask (fnc user : Byte) (rest : Rest) (fcb : Fcb) : Calling (Option (List Byte × Fcb)) :=
  .call (fileRequest fnc user rest fcb) fun answer => .done (answer.bind fun reply =>
    if reply[0]? = some 0#8 then some (reply, fcb.answered reply) else none)

/-- The program goes on if the request has succeeded. -/
def andThen {α γ : Type} (p : Calling (Option α)) (f : α → Calling (Option γ)) :
    Calling (Option γ) :=
  p.bind fun
    | none => .done none
    | some a => f a

/-- The record as what follows the FCB. -/
def Record.rest (data : Record) : Rest := ⟨data.val, by rw [data.property]; decide⟩

/-- WRITE SEQ of all records. -/
def writeFile (user : Byte) : List Record → Fcb → Calling (Option Fcb)
  | [], fcb => .done (some fcb)
  | data :: records, fcb =>
      andThen (ask 21#8 user data.rest fcb) fun answer => writeFile user records answer.2

/-- READ SEQ of so many records. -/
def readFile (user : Byte) : Nat → Fcb → Calling (Option (List (List Byte) × Fcb))
  | 0, fcb => .done (some ([], fcb))
  | n + 1, fcb =>
      andThen (ask 20#8 user ⟨[], Nat.zero_le _⟩ fcb) fun answer =>
        andThen (readFile user n answer.2) fun read =>
          .done (some (answer.1.drop 37 :: read.1, read.2))

/-- A new file is written and read back. -/
def copyFile (user : Byte) (dma : Rest) (records : List Record) (fcb : Fcb) :
    Calling (Option (List (List Byte) × Fcb)) :=
  andThen (ask 22#8 user dma fcb) fun answer =>
    andThen (writeFile user records answer.2) fun fcb =>
      andThen (ask 15#8 user dma fcb) fun answer => readFile user records.length answer.2

/-! ### Requests -/

/-- A request that the handler of its function answers. -/
theorem directCall_ok (upper : Nat → Text) (slaveid : Byte) {r : Request} {f : Function}
    {reply : List Byte} (hcode : Function.ofCode r.fnc = some f)
    (hreply : f.handle upper r.data { s with sent := [] } = .ok reply s') :
    ∃ s'', directCall upper slaveid r s = some (some reply, s'') ∧ SameHost s' s'' := by
  obtain ⟨s'', hdr, hanswer, hdid, hsame⟩ := answerOf_ok upper slaveid r.siz hcode hreply
  refine ⟨s'', ?_, hsame⟩
  have hverdict : verdict slaveid (hdr.getD 1 0#8) = 0#8 := if_pos (.inr hdid.symm)
  have hanswer' : answerOf upper (requestHeader slaveid r) r.data s = .sends s'' hdr reply :=
    hanswer
  unfold directCall
  rw [hanswer']
  dsimp only
  rw [if_pos hverdict]

/-- **A request over the line** is an exchange with the handler. -/
theorem ask_eval (upper : Nat → Text) (slaveid fnc : Byte) (rest : Rest) {f : Function}
    {reply : List Byte} (hcode : Function.ofCode fnc = some f)
    (hexchange : exchange (f.handle upper) user rest.val fcb { s with sent := [] } =
      some (reply, fcb', s')) :
    ∃ s'', (ask fnc user rest fcb).eval (directCall upper slaveid) s =
      some (some (reply, fcb'), s'') ∧
      SameHost s' s'' := by
  unfold exchange at hexchange
  cases hrun : f.handle upper (fcb.request user rest.val) { s with sent := [] } with
  | error e s₁ =>
      rw [hrun] at hexchange
      cases hexchange
  | ok reply₁ s₁ =>
      rw [hrun] at hexchange
      dsimp only at hexchange
      by_cases hzero : reply₁[0]? = some 0#8
      · rw [if_pos hzero] at hexchange
        cases hexchange
        obtain ⟨s'', hserve, hsame⟩ := directCall_ok upper slaveid
          (r := fileRequest fnc user rest fcb) hcode hrun
        refine ⟨s'', ?_, hsame⟩
        rw [ask, Program.eval_call hserve, Program.eval, Option.bind_some, if_pos hzero]
      · rw [if_neg hzero] at hexchange
        cases hexchange

theorem andThen_eval {α γ : Type} {p : Calling (Option α)} {f : α → Calling (Option γ)} {a : α}
    {σ : Type} {serve : Request → σ → Option (Option (List Byte) × σ)} {t t' : σ}
    (heval : p.eval serve t = some (some a, t')) :
    (andThen p f).eval serve t = (f a).eval serve t' := by
  rw [andThen, Program.eval_bind, heval]
  rfl

/-! ### Steps -/

section Steps

variable {n : Nat}

/-- A request leaves all other files as they are, and the drives. -/
structure Keeps (p : Text) (s s' : Server) : Prop where
  driveDirs : s'.driveDirs = s.driveDirs
  other : ∀ q ≠ p, s'.host.node q = s.host.node q

theorem Keeps.trans {s'' : Server} (hfirst : Keeps p s s') (hrest : Keeps p s' s'') :
    Keeps p s s'' :=
  ⟨hrest.driveDirs.trans hfirst.driveDirs,
    fun q hq => (hrest.other q hq).trans (hfirst.other q hq)⟩

theorem Keeps.same (hsame : SameHost s s') : Keeps p s s' :=
  ⟨hsame.driveDirs, fun _ _ => by rw [hsame.host]⟩

theorem Keeps.path (hkeeps : Keeps p s s') (hpath : fcb.path s = some p) : fcb.path s' = some p :=
  (fcb.path_of_dirs hkeeps.driveDirs).trans hpath

/-- WRITE SEQ changes no other file. -/
theorem exchange_write_keeps {bytes reply : List Byte} (data : Record) (hat : fcb.At fcb₀ n)
    (hn : n < 32767) (hpath : fcb₀.path s = some p) (hnul : 0 ∉ p)
    (hnode : s.host.node p = .open bytes)
    (hexchange : exchange handleWriteSeq user data.val fcb s = some (reply, fcb', s')) :
    Keeps p s s' := by
  have hlen : 37 ≤ (fcb.request user data.val).length := by
    rw [Fcb.length_request]
    omega
  have hreply := handleWriteSeq_open user data hat hpath hnul hnode
  rw [exceptOsError_ok (writeSeqReply_ok hlen (by omega) (by omega))] at hreply
  unfold exchange at hexchange
  rw [hreply] at hexchange
  dsimp only at hexchange
  split at hexchange
  · cases hexchange
    exact ⟨rfl, fun q hq => fill_other hq⟩
  · cases hexchange

/-- MAKE over the line. -/
theorem make_remote {bytes : List Byte} {h : Host} (upper : Nat → Text) (slaveid user : Byte)
    (dma : Rest) (hpath : fcb.path s = some p) (hnul : 0 ∉ p)
    (hopen : s.host.openFile .ab p = .ok (bytes, h)) :
    ∃ reply fcb' s', (ask 22#8 user dma fcb).eval (directCall upper slaveid) s =
        some (some (reply, fcb'), s') ∧
      fcb'.At fcb 0 ∧ Keeps p s s' ∧ s'.host = h := by
  obtain ⟨reply, fcb', hmake, hat⟩ :=
    exchange_make (s := { s with sent := [] }) user dma.val hpath hnul hopen
  obtain ⟨s', heval, hsame⟩ := ask_eval upper slaveid 22#8 dma (f := .makeFile) rfl hmake
  refine ⟨reply, fcb', s', heval, hat, ⟨hsame.driveDirs, fun q hq => ?_⟩, hsame.host⟩
  rw [hsame.host]
  exact openFile_other hopen hq

/-- WRITE SEQ over the line. -/
theorem write_remote {front rest : List Byte} (upper : Nat → Text) (slaveid user : Byte)
    (data : Record) (hat : fcb.At fcb₀ n) (hn : n < 32767) (hpath : fcb₀.path s = some p)
    (hnul : 0 ∉ p) (hnode : s.host.node p = .open (front ++ rest))
    (hfront : front.length = 128 * n) :
    ∃ reply fcb' s', (ask 21#8 user data.rest fcb).eval (directCall upper slaveid) s =
        some (some (reply, fcb'), s') ∧
      fcb'.At fcb₀ (n + 1) ∧ Keeps p s s' ∧
      s'.host.node p = .open (front ++ data.val ++ rest.drop 128) := by
  obtain ⟨reply, fcb', s₁, hwrite, hat', hdirs, hnode'⟩ :=
    exchange_write (s := { s with sent := [] }) user data hat hn hpath hnul hnode hfront
  have hkeeps := exchange_write_keeps (s := { s with sent := [] }) data hat hn hpath hnul hnode
    hwrite
  obtain ⟨s', heval, hsame⟩ := ask_eval upper slaveid 21#8 data.rest
    (f := .writeSeq) rfl hwrite
  have hkeeps' : Keeps p s s₁ := ⟨hkeeps.driveDirs, hkeeps.other⟩
  refine ⟨reply, fcb', s', heval, hat', hkeeps'.trans (.same hsame), ?_⟩
  rw [hsame.host]
  exact hnode'

/-- OPEN over the line. -/
theorem open_remote {f : File} (upper : Nat → Text) (slaveid user : Byte) (dma : Rest)
    (hat : fcb.At fcb₀ n) (hpath : fcb₀.path s = some p) (hnul : 0 ∉ p)
    (hnode : s.host.node p = .file f) :
    ∃ reply fcb' s', (ask 15#8 user dma fcb).eval (directCall upper slaveid) s =
        some (some (reply, fcb'), s') ∧
      fcb'.At fcb₀ 0 ∧ SameHost s s' := by
  obtain ⟨reply, fcb', s₁, hopen, hat', hdirs, hhost⟩ :=
    exchange_open (s := { s with sent := [] }) user dma.val hat hpath hnul hnode
  obtain ⟨s', heval, hsame⟩ := ask_eval upper slaveid 15#8 dma (f := .openFile) rfl hopen
  exact ⟨reply, fcb', s', heval, hat', ⟨hsame.driveDirs.trans hdirs, hsame.host.trans hhost⟩⟩

/-- READ SEQ over the line. -/
theorem read_remote {front rest : List Byte} (upper : Nat → Text) (slaveid user : Byte)
    (data : Record) (hat : fcb.At fcb₀ n) (hn : n < 32767) (hpath : fcb₀.path s = some p)
    (hnul : 0 ∉ p) (hnode : s.host.node p = .open (front ++ (data.val ++ rest)))
    (hfront : front.length = 128 * n) :
    ∃ reply fcb' s', (ask 20#8 user ⟨[], Nat.zero_le _⟩ fcb).eval (directCall upper slaveid) s =
        some (some (reply, fcb'), s') ∧
      reply.drop 37 = data.val ∧ fcb'.At fcb₀ (n + 1) ∧ SameHost s s' := by
  obtain ⟨reply, fcb', s₁, hread, hdata, hat', hdirs, hhost⟩ :=
    exchange_read (s := { s with sent := [] }) user data hat hn hpath hnul hnode hfront
  obtain ⟨s', heval, hsame⟩ := ask_eval upper slaveid 20#8 ⟨[], Nat.zero_le _⟩
    (f := .readSeq) rfl hread
  exact ⟨reply, fcb', s', heval, hdata, hat',
    ⟨hsame.driveDirs.trans hdirs, hsame.host.trans hhost⟩⟩

end Steps

/-! ### Runs -/

/-- **All records are written**, one after the other. -/
theorem writeFile_remote (upper : Nat → Text) (slaveid user : Byte) (hnul : 0 ∉ p)
    (records : List Record) :
    ∀ {fcb : Fcb} {s : Server} {n : Nat} {front rest : List Byte}, fcb.At fcb₀ n →
      n + records.length ≤ 32767 → fcb₀.path s = some p →
      s.host.node p = .open (front ++ rest) → front.length = 128 * n →
      ∃ fcb' s', (writeFile user records fcb).eval (directCall upper slaveid) s =
          some (some fcb', s') ∧
        fcb'.At fcb₀ (n + records.length) ∧ Keeps p s s' ∧
        s'.host.node p = .open (front ++ contents records ++ rest.drop (128 * records.length)) := by
  -- by induction on the records that are left; FCB, position and file move along
  induction records with
  | nil =>
      intro fcb s n front rest hat hn hpath hnode hfront
      refine ⟨fcb, s, rfl, hat, ⟨rfl, fun _ _ => rfl⟩, ?_⟩
      rw [hnode, contents, List.map_nil, List.flatten_nil, List.append_nil]
      rfl
  | cons data records ih =>
      intro fcb s n front rest hat hn hpath hnode hfront
      rw [List.length_cons] at hn ⊢
      obtain ⟨reply, fcb₁, s₁, hfirst, hat₁, hkeeps, hnode₁⟩ :=
        write_remote upper slaveid user data hat (by omega) hpath hnul hnode hfront
      obtain ⟨fcb', s', hrest, hat', hkeeps', hnode'⟩ :=
        ih hat₁ (by omega) (hkeeps.path hpath) hnode₁ (length_front data hfront)
      refine ⟨fcb', s', ?_, ?_, hkeeps.trans hkeeps', ?_⟩
      · rw [writeFile, andThen_eval hfirst]
        exact hrest
      · rw [← Nat.add_assoc, Nat.add_right_comm]
        exact hat'
      · rw [hnode', List.drop_drop, contents, contents, List.map_cons, List.flatten_cons,
          List.append_assoc front data.val, Nat.mul_add, Nat.add_comm (128 * records.length)]

/-- **All records are read**, from the position on. -/
theorem readFile_remote (upper : Nat → Text) (slaveid user : Byte) (hnul : 0 ∉ p)
    (records : List Record) :
    ∀ {fcb : Fcb} {s : Server} {n : Nat} {front rest : List Byte}, fcb.At fcb₀ n →
      n + records.length ≤ 32767 → fcb₀.path s = some p →
      s.host.node p = .open (front ++ (contents records ++ rest)) → front.length = 128 * n →
      ∃ fcb' s', (readFile user records.length fcb).eval (directCall upper slaveid) s =
          some (some (records.map Subtype.val, fcb'), s') ∧
        SameHost s s' := by
  -- here the file stays, and what has been read goes to its front
  induction records with
  | nil =>
      intro fcb s n front rest hat hn hpath hnode hfront
      exact ⟨fcb, s, rfl, rfl, rfl⟩
  | cons data records ih =>
      intro fcb s n front rest hat hn hpath hnode hfront
      rw [List.length_cons] at hn
      rw [contents, List.map_cons, List.flatten_cons, ← contents, List.append_assoc] at hnode
      obtain ⟨reply, fcb₁, s₁, hfirst, hdata, hat₁, hsame⟩ :=
        read_remote upper slaveid user data hat (by omega) hpath hnul hnode hfront
      have hpath₁ : fcb₀.path s₁ = some p := (fcb₀.path_of_dirs hsame.driveDirs).trans hpath
      have hnode₁ : s₁.host.node p = .open ((front ++ data.val) ++ (contents records ++ rest)) := by
        rw [hsame.host, hnode, List.append_assoc]
      obtain ⟨fcb', s', hrest, hsame'⟩ :=
        ih hat₁ (by omega) hpath₁ hnode₁ (length_front data hfront)
      refine ⟨fcb', s', ?_, hsame'.driveDirs.trans hsame.driveDirs, hsame'.host.trans hsame.host⟩
      rw [List.length_cons, readFile, andThen_eval hfirst, andThen_eval hrest]
      dsimp only
      rw [hdata, List.map_cons]
      rfl

/-- A file that accepts the records can be opened by MAKE. -/
theorem accepts_opens {h : Host} {n : Nat} (haccepts : Accepts h p n) :
    ∃ bytes h', h.openFile .ab p = .ok (bytes, h') ∧ h'.node p = .open bytes ∧
      bytes.length ≤ 128 * n := by
  unfold Accepts at haccepts
  cases hnode : h.node p with
  | absent =>
      rw [hnode] at haccepts
      refine ⟨[], h.create p, ?_, create_own, Nat.zero_le _⟩
      unfold Host.openFile
      rw [hnode]
      exact if_pos haccepts
  | file f =>
      rw [hnode] at haccepts
      obtain ⟨bytes, readable, writable⟩ := f
      obtain ⟨rfl, rfl, hshort⟩ := haccepts
      refine ⟨bytes, h, ?_, hnode, hshort⟩
      unfold Host.openFile
      rw [hnode]
      rfl
  | directory size =>
      rw [hnode] at haccepts
      exact haccepts.elim

/-- **The copy**, without a line in between. -/
theorem copyFile_remote (upper : Nat → Text) (slaveid user : Byte) (dma : Rest)
    (records : List Record) (hn : records.length ≤ 32767) (hpath : fcb.path s = some p)
    (hnul : 0 ∉ p) (haccepts : Accepts s.host p records.length) :
    ∃ fcb' s', (copyFile user dma records fcb).eval (directCall upper slaveid) s =
        some (some (records.map Subtype.val, fcb'), s') ∧
      Keeps p s s' ∧ s'.host.node p = .open (contents records) := by
  obtain ⟨bytes, h, hopen, hnode, hshort⟩ := accepts_opens haccepts
  obtain ⟨reply₁, fcb₁, s₁, hmake, hat₁, hkeeps₁, hhost₁⟩ :=
    make_remote upper slaveid user dma hpath hnul hopen
  have hnode₁ : s₁.host.node p = .open ([] ++ bytes) := by rw [hhost₁, hnode, List.nil_append]
  obtain ⟨fcb₂, s₂, hwrite, hat₂, hkeeps₂, hnode₂⟩ := writeFile_remote upper slaveid user hnul
    records
    hat₁ (by omega) (hkeeps₁.path hpath) hnode₁ rfl
  have hnothing : bytes.drop (128 * records.length) = [] := List.drop_eq_nil_iff.mpr hshort
  rw [hnothing, List.append_nil, List.nil_append] at hnode₂
  have hpath₂ := (hkeeps₁.trans hkeeps₂).path hpath
  obtain ⟨reply₃, fcb₃, s₃, hagain, hat₃, hsame₃⟩ :=
    open_remote upper slaveid user dma hat₂ hpath₂ hnul hnode₂
  have hpath₃ : fcb.path s₃ = some p := (fcb.path_of_dirs hsame₃.driveDirs).trans hpath₂
  have hnode₃ : s₃.host.node p = .open ([] ++ (contents records ++ [])) := by
    rw [hsame₃.host, hnode₂, List.nil_append, List.append_nil]
  obtain ⟨fcb₄, s₄, hread, hsame₄⟩ := readFile_remote upper slaveid user hnul records hat₃
    (by omega)
    hpath₃ hnode₃ rfl
  refine ⟨fcb₄, s₄, ?_, ?_, ?_⟩
  · rw [copyFile, andThen_eval hmake, andThen_eval hwrite, andThen_eval hagain]
    exact hread
  · exact ((hkeeps₁.trans hkeeps₂).trans (.same hsame₃)).trans (.same hsame₄)
  · rw [hsame₄.host, hsame₃.host, hnode₂]

/-- **A file over the line.**  A client writes a file of at most 32767 records to the file server
over the serial line, and reads it back: in every run of the two it ends with the records that it
has written.  The file on the host holds just these, and every other file is as before. -/
theorem file_over_line (port : Port) (msg : Word) (upper : Nat → Text) (user : Byte) (dma : Rest)
    (records : List Record) (fcb : Fcb) (m : Snios) (s : Server) (path : Text)
    (hactive : m.netst &&& ACTIVE ≠ 0#8) (hn : records.length ≤ 32767)
    (hpath : fcb.path s = some path) (hnul : 0 ∉ path)
    (haccepts : Accepts s.host path records.length) :
    ∃ fcb' m' v, Concludes (NetStep (Caller.act port msg) (serveAct upper))
        ⟨Caller.start port msg (copyFile user dma records fcb) m, serving s, [], []⟩
        ⟨.finished (some (records.map Subtype.val, fcb')) m', v, [], []⟩ ∧
      v.state.host.node path = .open (contents records) ∧
      ∀ q ≠ path, v.state.host.node q = s.host.node q := by
  obtain ⟨fcb', s', heval, hkeeps, hnode⟩ :=
    copyFile_remote upper m.slaveid user dma records hn hpath hnul haccepts
  obtain ⟨m', v, hat, hconcludes⟩ := session_concludes port msg hactive heval
  refine ⟨fcb', m', v, hconcludes, ?_, ?_⟩
  · rw [hat]
    exact hnode
  · intro q hq
    rw [hat]
    exact hkeeps.other q hq

/-- Two records, on a server without a file. -/
theorem file_over_line_two :
    ∃ fcb' m' v, Concludes (NetStep (Caller.act .cpnos 0#16) (serveAct asciiUpper))
        ⟨Caller.start .cpnos 0#16 (copyFile 0#8 ⟨[], Nat.zero_le _⟩
          [⟨List.replicate 128 1#8, rfl⟩, ⟨List.replicate 128 2#8, rfl⟩] fooFcb) (node 0#8 1#8),
          serving emptyServer, [], []⟩
        ⟨.finished (some ([List.replicate 128 1#8, List.replicate 128 2#8], fcb')) m', v,
          [], []⟩ := by
  have hpath : fooFcb.path emptyServer = some (text "/srv/FOO.TXT") := by decide
  have hnul : 0 ∉ text "/srv/FOO.TXT" := by decide
  have habsent : emptyServer.host.node (text "/srv/FOO.TXT") = .absent := by decide
  have haccepts : Accepts emptyServer.host (text "/srv/FOO.TXT") 2 := by
    unfold Accepts
    rw [habsent]
    rfl
  obtain ⟨fcb', m', v, hconcludes, -⟩ := file_over_line .cpnos 0#16 asciiUpper 0#8
    ⟨[], Nat.zero_le _⟩ [⟨List.replicate 128 1#8, rfl⟩, ⟨List.replicate 128 2#8, rfl⟩] fooFcb
    (node 0#8 1#8) emptyServer _ (by decide) (by decide) hpath hnul haccepts
  exact ⟨fcb', m', v, hconcludes⟩

end CpNet
end Rc700
