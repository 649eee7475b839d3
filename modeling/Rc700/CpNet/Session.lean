import Rc700.CpNet.Delivery
import Rc700.CpNet.Survival
import Rc700.Link.Calls

/-!
# Sessions with the file server

A program that calls `cpnet_xact`, and `run` of `cpnet/server.py`, on a line that loses nothing.
Where `handle_request` answers all that the program asks for, what comes of the two is what comes
of the program if it calls `handle_request` itself, and each request is dispatched once, in its
turn (`session_transparent`).  The program may ask for whatever it likes after what it has been
told.
-/

namespace Rc700
namespace CpNet

open Library Link Snios

variable {upper : Nat → Text} {s s' : Server} {hdr payload hdr' reply : List Byte}

/-- The header of a request. -/
def requestHeader (slaveid : Byte) (r : Request) : List Byte :=
  [0x00#8, 0x00#8, slaveid, r.fnc, r.siz]

/-- A call without a line in between: the reply is what `handle_request` sends, and `cpnet_xact`
does not take it if it is for another node. -/
def directCall (upper : Nat → Text) (slaveid : Byte) (r : Request) (s : Server) :
    Option (Option (List Byte) × Server) :=
  match answerOf upper (requestHeader slaveid r) r.data s with
  | .sends s' hdr reply =>
      some (if verdict slaveid (hdr.getD 1 0#8) = 0#8 then some reply else none, s')
  | .returns _ => none
  | .raises => none

/-! ### What the server sends -/

/-- A computation that settles returns a reply that fits a frame, if it returns. -/
theorem Settles.of_ok {m : Action (List Byte)} {c : Prop} {r : List Byte} (hm : Settles m s c)
    (hok : m s = .ok r s') : 1 ≤ r.length ∧ r.length ≤ 256 ∧ s'.sent = s.sent := by
  by_cases hc : c
  · obtain ⟨r', s'', hr, hpos, hlen, hsent⟩ := hm.replies hc
    cases hr.symm.trans hok
    exact ⟨hpos, hlen, hsent⟩
  · obtain ⟨e, s'', he⟩ := hm.raises hc
    cases he.symm.trans hok

theorem respond_reply {fnc : Byte} (hok : respond upper fnc payload s = .ok reply s') :
    1 ≤ reply.length ∧ reply.length ≤ 256 ∧ s'.sent = s.sent := by
  unfold respond at hok
  cases hcode : Function.ofCode fnc with
  | some f =>
      rw [hcode] at hok
      exact (handle_settles f).of_ok hok
  | none =>
      rw [hcode] at hok
      exact (handleUnknown_settles fnc).of_ok hok

/-- `handle_request` sends one frame, for a request that is no shutdown. -/
theorem handleRequest_sends {hdr : Header} (hdown : hdr.fnc ≠ 0xFE#8)
    (hok : handleRequest upper hdr payload { s with sent := [] } = .ok () s') :
    ∃ frame, s'.sent = [frame] ∧ frame.payload.length = frame.hdr.siz.toNat + 1 := by
  unfold handleRequest at hok
  by_cases hinit : hdr.fnc = 0xFF#8
  · rw [if_pos hinit] at hok
    cases hok
    exact ⟨_, rfl, rfl⟩
  · rw [if_neg hinit, if_neg hdown, Action.bind_apply] at hok
    cases hrun : respond upper hdr.fnc payload { s with sent := [] } with
    | error e s₁ =>
        rw [hrun] at hok
        cases hok
    | ok r s₁ =>
        obtain ⟨hpos, hmax, hsent⟩ := respond_reply hrun
        rw [hrun] at hok
        cases hok
        refine ⟨_, congrArg (List.cons _) hsent, ?_⟩
        show r.length = (BitVec.ofNat 8 (r.length + 255)).toNat + 1
        rw [BitVec.toNat_ofNat]
        omega

/-- What `handle_request` sends is a frame. -/
theorem answerOf_sends (hsends : answerOf upper hdr payload s = .sends s' hdr' reply) :
    hdr'.length = 5 ∧ reply.length = (siz hdr').toNat + 1 := by
  unfold answerOf at hsends
  cases hrun : handleRequest upper (headerOf hdr) payload { s with sent := [] } with
  | error e s₁ =>
      rw [hrun] at hsends
      cases hsends
  | ok u s₁ =>
      rw [hrun] at hsends
      dsimp only at hsends
      by_cases hdown : (headerOf hdr).fnc = 0xFE#8
      · -- nothing is sent for a shutdown
        have hinit : (headerOf hdr).fnc ≠ 0xFF#8 := by
          rw [hdown]
          decide
        unfold handleRequest at hrun
        rw [if_neg hinit, if_pos hdown] at hrun
        cases hrun
        cases hsends
      · obtain ⟨frame, hsent, hlen⟩ := handleRequest_sends hdown hrun
        rw [hsent] at hsends
        cases hsends
        exact ⟨rfl, hlen⟩

/-- What two states of the server have in common, when they differ in the frames that are sent. -/
structure SameHost (s s' : Server) : Prop where
  driveDirs : s'.driveDirs = s.driveDirs
  host : s'.host = s.host

/-- The reply of a handler is sent back to the node that has asked. -/
theorem answerOf_ok (upper : Nat → Text) (slaveid siz : Byte) {fnc : Byte} {f : Function}
    (hcode : Function.ofCode fnc = some f)
    (hreply : f.handle upper payload { s with sent := [] } = .ok reply s') :
    ∃ s'' hdr, answerOf upper [0x00#8, 0x00#8, slaveid, fnc, siz] payload s =
        .sends s'' hdr reply ∧
      hdr.getD 1 0#8 = slaveid ∧ SameHost s' s'' := by
  have hinit : fnc ≠ 0xFF#8 := by
    rintro rfl
    cases hcode
  have hdown : fnc ≠ 0xFE#8 := by
    rintro rfl
    cases hcode
  let request : Header := ⟨0x00#8, 0x00#8, slaveid, fnc, siz⟩
  let hdr : Header := ⟨1#8, slaveid, s'.serverNode, fnc, BitVec.ofNat 8 (reply.length + 255)⟩
  have hrun : handleRequest upper request payload { s with sent := [] } =
      .ok () { s' with sent := ⟨hdr, reply⟩ :: s'.sent } := by
    have hrespond : respond upper fnc payload { s with sent := [] } = .ok reply s' := by
      unfold respond
      rw [hcode]
      exact hreply
    unfold handleRequest
    rw [if_neg hinit, if_neg hdown, Action.bind_apply, hrespond]
    rfl
  have hheader : headerOf [0x00#8, 0x00#8, slaveid, fnc, siz] = request := rfl
  refine ⟨{ s' with sent := ⟨hdr, reply⟩ :: s'.sent }, hdr.bytes, ?_, rfl, ⟨rfl, rfl⟩⟩
  unfold answerOf
  rw [hheader, hrun]

/-! ### The server's end -/

/-- A request comes, and its reply goes: then the server looks for the next one. -/
theorem server_follows (ds : List (List Byte × List Byte)) (hlen : hdr.length = 5)
    (hplen : payload.length = (siz hdr).toNat + 1)
    (hsends : answerOf upper hdr payload s = .sends s' hdr' reply) :
    Follows (serveAct upper) ⟨s, .hunting, ds⟩
      ((frameTurns hdr payload).map Turn.dual ++ frameTurns hdr' reply)
      ⟨s', .hunting, ds ++ [(hdr, payload)]⟩ := by
  let v : Serving Server := ⟨s, .hunting, ds⟩
  let v' : Serving Server := ⟨s', .hunting, ds ++ [(hdr, payload)]⟩
  have hrequest := serving_follows (answerOf upper) v (receiver_takes_frame hlen hplen)
  have hdispatched : v.goOn (answerOf upper) (.receiving (.within (.done (some (hdr, payload))))) =
      v'.goOn (answerOf upper) (.replying (Link.sendFrame hdr' reply)) := by
    show v.dispatch (answerOf upper) hdr payload = _
    unfold Serving.dispatch
    dsimp only
    rw [hsends]
    rfl
  have hreply : Follows (serveAct upper)
      (v'.goOn (answerOf upper) (.replying (Link.sendFrame hdr' reply))) (frameTurns hdr' reply)
      (v'.goOn (answerOf upper) (.replying (.done true))) := by
    refine Follows.lift (f := fun d => v'.goOn (answerOf upper) (.replying d)) (fun d hgoes => ?_)
      (server_sends_frame reply (answerOf_sends hsends).1)
    cases d with
    | done b => exact absurd rfl hgoes
    | say b d => rfl
    | hear k => rfl
  rw [hdispatched] at hrequest
  exact hrequest.append hreply

/-! ### Sessions -/

/-- The server looks for a request, and has dispatched these. -/
def Awaits (slaveid : Byte) (recorded : Server × List Request) (v : Serving Server) : Prop :=
  v = ⟨recorded.1, .hunting, recorded.2.map fun r => (requestHeader slaveid r, r.data)⟩

/-- **A call** is carried: its request is dispatched, and its reply comes back. -/
theorem calls_carried (port : Port) (msg : Word) (upper : Nat → Text) (slaveid : Byte) {α : Type} :
    Program.Carries (Caller.act port msg) (serveAct upper)
      (Program.recording (directCall upper slaveid)) (@Caller.start port msg α)
      (fun m => Active m ∧ m.slaveid = slaveid) (Awaits slaveid) := by
  rintro r next m ⟨s, rs⟩ ⟨s', rs'⟩ v answer ⟨hactive, rfl⟩ hat hserve
  obtain ⟨⟨answer', s₁⟩, hserve', heq⟩ := Option.map_eq_some_iff.mp hserve
  cases heq
  have hv : v = ⟨s, .hunting, rs.map fun r => (requestHeader m.slaveid r, r.data)⟩ := hat
  subst hv
  unfold directCall at hserve'
  cases hanswer : answerOf upper (requestHeader m.slaveid r) r.data s with
  | returns s₂ =>
      rw [hanswer] at hserve'
      cases hserve'
  | raises =>
      rw [hanswer] at hserve'
      cases hserve'
  | sends s₂ hdr reply =>
      rw [hanswer] at hserve'
      cases hserve'
      obtain ⟨hlen, hsiz⟩ := answerOf_sends hanswer
      obtain ⟨m₁, hrequest, hactive₁, hslaveid₁⟩ :=
        request_follows port msg r next hactive
      obtain ⟨m₂, hreply, hactive₂, hslaveid₂⟩ :=
        reply_follows port msg next hactive₁ hlen hsiz
      rw [hslaveid₁] at hreply
      have hserver := server_follows (rs.map fun r => (requestHeader m.slaveid r, r.data)) rfl
        r.length hanswer
      have hdual : ((frameTurns hdr reply).map Turn.dual).map Turn.dual =
        frameTurns hdr reply := rfl
      refine ⟨_, m₂, ⟨s₁, .hunting, (rs ++ [r]).map fun r => (requestHeader m.slaveid r, r.data)⟩,
        ⟨hactive₂, hslaveid₂.trans hslaveid₁⟩, ?_, hrequest.append hreply, ?_⟩
      · exact rfl
      · rw [List.map_append, hdual, List.map_append]
        exact hserver

/-- Every run of a session ends as the program does without a line in between. -/
theorem session_concludes (port : Port) (msg : Word) {α : Type} {p : Calling α} {m : Snios} {a : α}
    (hactive : Active m) (heval : p.eval (directCall upper m.slaveid) s = some (a, s')) :
    ∃ m' v, Awaits m.slaveid (s', p.requests (directCall upper m.slaveid) s) v ∧
      Concludes (NetStep (Caller.act port msg) (serveAct upper))
        ⟨Caller.start port msg p m, ⟨s, .hunting, []⟩, [], []⟩ ⟨.finished a m', v, [], []⟩ := by
  have hrecorded := Program.eval_recording [] heval
  rw [List.nil_append] at hrecorded
  obtain ⟨m', v', -, hat', hconcludes⟩ := Program.concludes
    (calls_carried port msg upper m.slaveid) hrecorded ⟨hactive, rfl⟩ rfl (fun _ => rfl) (by
      rintro v rfl
      exact ⟨_, rfl⟩)
  exact ⟨m', v', hat', hconcludes⟩

/-- **Sessions are transparent.**  A program that calls `cpnet_xact` and the file server come, in
every run, to where the program comes that calls `handle_request` itself: the result is the same,
and so is the server.  Each request has been dispatched once, in its turn, as it was made. -/
theorem session_transparent (port : Port) (msg : Word) (upper : Nat → Text) {α : Type}
    (p : Calling α) (m : Snios) (s s' : Server) (a : α) (hactive : m.netst &&& ACTIVE ≠ 0#8)
    (heval : p.eval (directCall upper m.slaveid) s = some (a, s')) :
    ∃ m', Concludes (NetStep (Caller.act port msg) (serveAct upper))
      ⟨Caller.start port msg p m, serving s, [], []⟩
      ⟨.finished a m', ⟨s', .hunting, (p.requests (directCall upper m.slaveid) s).map fun r =>
        ([0x00#8, 0x00#8, m.slaveid, r.fnc, r.siz], r.data)⟩, [], []⟩ := by
  obtain ⟨m', v, hat, hconcludes⟩ := session_concludes port msg hactive heval
  cases hat
  exact ⟨m', hconcludes⟩

/-- LOGIN with a password of 8 bytes, and GET DPB; the second is asked for if the first is
granted. -/
def loginThenDpb : Calling (Option (List Byte)) :=
  .call ⟨64#8, 7#8, List.replicate 8 0x20#8, rfl⟩ fun answer =>
    if answer = some [0#8] then .call ⟨31#8, 0#8, [0#8], rfl⟩ .done else .done none

/-- The node is active, and nobody else is on the line. -/
theorem session_transparent_login :
    ∃ m' s', Concludes (NetStep (Caller.act .cpnos 0#16) (serveAct asciiUpper))
      ⟨Caller.start .cpnos 0#16 loginThenDpb (node 0#8 1#8), serving emptyServer, [], []⟩
      ⟨.finished (some dpbReply) m', s', [], []⟩ := by
  obtain ⟨s', heval⟩ : ∃ s', loginThenDpb.eval (directCall asciiUpper 0x70#8) emptyServer =
      some (some dpbReply, s') := ⟨_, rfl⟩
  obtain ⟨m', hconcludes⟩ := session_transparent .cpnos 0#16 asciiUpper loginThenDpb (node 0#8 1#8)
    emptyServer s' (some dpbReply) (by decide) heval
  exact ⟨m', _, hconcludes⟩

end CpNet
end Rc700
