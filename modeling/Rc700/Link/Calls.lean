import Rc700.Library.Calls
import Rc700.Link.Exchange
import Rc700.Link.Serving
import Rc700.Link.Storing

/-!
# Calls over the serial line

`cpnet_xact` of `cpnos-rom/netboot_mpm.c`, for any program that calls it: the message is
filled in, SNDMSG sends it and RCVMSG waits for the reply.  The program gets the data of the
reply, or 0xFE, here `none`, if one of the two has not returned 0.

At the other end is a server that answers each request with one frame.  On a line that loses
nothing a call is six exchanges for the request and six for the reply (`calls_carried`).
-/

namespace Rc700
namespace Link

open Library Snios

/-! ### The caller -/

/-- What `cpnet_xact` is called with: the function, the length less one, and what is in
`msg[DAT]` and behind it. -/
structure Request where
  fnc : Byte
  siz : Byte
  data : List Byte
  length : data.length = siz.toNat + 1

/-- A program that calls `cpnet_xact`. -/
abbrev Calling (α : Type) := Program Request (Option (List Byte)) α

/-- The program is in a call of SNIOS for `cpnet_xact`, or it is over. -/
inductive Caller (α : Type)
  | calling (receiving : Bool) (client : Client) (next : Option (List Byte) → Calling α)
  | finished (a : α) (m : Snios)

variable (port : Port) (msg : Word) {α : Type}

/-- The message of a request, at `msg`. -/
def fillIn (r : Request) (m : Snios) : Snios :=
  let mem := storeAt m.mem (msg + 5#16) r.data
  { m with mem := storeAt mem msg [0x00#8, 0x00#8, 0x01#8, r.fnc, r.siz] }

/-- The data of the message at `msg`. -/
def replyAt (m : Snios) : List Byte :=
  loadAt m.mem (msg + 5#16) ((m.mem (msg + 4#16)).toNat + 1)

/-- The program up to its first wait.  A node that is not active returns at once. -/
def Caller.start : Calling α → Snios → Caller α
  | .done a, m => .finished a m
  | .call r next, m =>
      let m := sndmsg port msg (fillIn msg r m)
      if m.place = .returned 0 then start (next none) m else .calling false ⟨m, 0⟩ next

/-- The program goes on when SNIOS has returned to it.  Nothing is known of it after a return to
another word of the stack. -/
def Caller.goOn : Caller α → Caller α
  | .calling receiving ⟨m, said⟩ next =>
      if said = m.sent.length ∧ m.place = .returned 0 then
        if m.a ≠ 0#8 then start port msg (next none) m
        else if receiving then start port msg (next (some (replyAt msg m))) m
        else
          let m := rcvmsg port msg m
          if m.place = .returned 0 then start port msg (next none) m else .calling true ⟨m, 0⟩ next
      else .calling receiving ⟨m, said⟩ next
  | .finished a m => .finished a m

def Caller.act : Caller α → Act Byte (Caller α)
  | .calling receiving client next =>
      (Client.act port client).map fun client => goOn port msg (.calling receiving client next)
  | .finished _ _ => .rest

/-! ### SNIOS in a call -/

variable {m : Snios}

theorem goOn_within (receiving : Bool) {c : Client} (next : Option (List Byte) → Calling α)
    (hgoes : Client.act port c ≠ .rest) :
    Caller.goOn port msg (.calling receiving c next) = .calling receiving c next := by
  obtain ⟨m, said⟩ := c
  unfold Caller.goOn
  refine if_neg fun hback => hgoes ?_
  obtain ⟨rfl, hplace⟩ := hback
  exact settled_rest port hplace

/-- While SNIOS goes on, so does the caller. -/
theorem caller_follows (receiving : Bool) (next : Option (List Byte) → Calling α) {c c' : Client}
    {turns : List (Turn Byte)} (hfollows : Follows (Client.act port) c turns c') :
    Follows (Caller.act port msg) (Caller.goOn port msg (.calling receiving c next)) turns
      (Caller.goOn port msg (.calling receiving c' next)) := by
  refine Follows.lift (f := fun c => Caller.goOn port msg (.calling receiving c next))
    (fun c hgoes => ?_) hfollows
  rw [goOn_within port msg receiving next hgoes]
  rfl

/-- SNIOS has returned to the caller. -/
theorem goOn_back (receiving : Bool) (next : Option (List Byte) → Calling α)
    (hplace : m.place = .returned 0) :
    Caller.goOn port msg (.calling receiving (settled m) next) =
      if m.a ≠ 0#8 then Caller.start port msg (next none) m
      else if receiving then Caller.start port msg (next (some (replyAt msg m))) m
      else if (rcvmsg port msg m).place = .returned 0 then
        Caller.start port msg (next none) (rcvmsg port msg m)
      else .calling true ⟨rcvmsg port msg m, 0⟩ next := by
  unfold Caller.goOn settled
  exact if_pos ⟨rfl, hplace⟩

/-! ### One call -/

section Call

variable {r : Request} {next : Option (List Byte) → Calling α}

/-- A call of an active node starts with SNDMSG. -/
theorem start_call (hactive : Active m) :
    Caller.start port msg (.call r next) m =
      Caller.goOn port msg (.calling false ⟨sndmsg port msg (fillIn msg r m), 0⟩ next) := by
  have hplace : (sndmsg port msg (fillIn msg r m)).place ≠ .returned 0 := by
    have hstart : sndmsg port msg (fillIn msg r m) = sndms0 msg (called (fillIn msg r m)) :=
      if_neg hactive
    rw [hstart]
    exact nofun
  rw [Caller.start, Caller.goOn]
  exact (if_neg hplace).trans (if_neg fun hback => hplace hback.2).symm

/-- The message that is sent. -/
theorem message_fillIn (r : Request) (m : Snios) :
    hdrAt msg (fillIn msg r m) = [0x00#8, 0x00#8, m.slaveid, r.fnc, r.siz] ∧
      payloadAt msg (fillIn msg r m) = r.data := by
  have hlen := r.length
  have hsmall := r.siz.isLt
  have hmem : loadAt (fillIn msg r m).mem msg (5 + r.data.length) =
      [0x00#8, 0x00#8, 0x01#8, r.fnc, r.siz] ++ r.data := by
    have hfive : [0x00#8, 0x00#8, 0x01#8, r.fnc, r.siz].length = 5 := rfl
    have hdata : loadAt (fillIn msg r m).mem (msg + 5#16) r.data.length =
        loadAt (storeAt m.mem (msg + 5#16) r.data) (msg + 5#16) r.data.length := by
      refine loadAt_congr fun i hi => storeAt_other _ _ fun j hj heq => ?_
      rw [hfive] at hj
      bv_omega
    rw [loadAt_storeAt _ _ (by omega)] at hdata
    rw [loadAt_append]
    refine congrArg₂ _ ?_ hdata
    rw [← hfive]
    exact loadAt_storeAt _ _ (by rw [hfive]; decide)
  obtain ⟨hhdr, hpayload, -⟩ := message_at (m := fillIn msg r m) rfl (by omega) hlen hmem
  exact ⟨hhdr, hpayload⟩

/-- SNDMSG has sent the request, and RCVMSG waits for the reply. -/
theorem request_follows (r : Request) (next : Option (List Byte) → Calling α)
    (hactive : Active m) :
    ∃ m', Follows (Caller.act port msg) (Caller.start port msg (.call r next) m)
        (frameTurns [0x00#8, 0x00#8, m.slaveid, r.fnc, r.siz] r.data)
        (.calling true ⟨rcvmsg port msg m', 0⟩ next) ∧
      Active m' ∧ m'.slaveid = m.slaveid := by
  have hfilled : Active (fillIn msg r m) := hactive
  obtain ⟨hhdr, hpayload⟩ := message_fillIn msg r m
  obtain ⟨m', hm', hsends, hreturned, ha⟩ := client_sends_frame port msg hfilled
  have hkeeps : Keeps (sndmsg port msg (fillIn msg r m)) m' := by
    rw [hm']
    exact keeps_run port (sends_sndmsg port msg hfilled).1 _
  have hstart : sndmsg port msg (fillIn msg r m) = sndms0 msg (called (fillIn msg r m)) :=
    if_neg hfilled
  have hactive' : Active m' := hkeeps.active (by rw [hstart]; exact hactive)
  refine ⟨m', ?_, hactive', ?_⟩
  · have hfollows := caller_follows port msg false next hsends
    have hwaits : (rcvmsg port msg m').place ≠ .returned 0 := by
      have hrecv : rcvmsg port msg m' = rcvms0 msg (called m') := if_neg hactive'
      rw [hrecv]
      exact nofun
    rw [hhdr, hpayload, goOn_back port msg false next hreturned.place, if_neg (not_not_intro ha),
      if_neg Bool.false_ne_true, if_neg hwaits] at hfollows
    rw [start_call port msg hactive]
    exact hfollows
  · rw [hkeeps.slaveid, hstart]
    rfl

/-- RCVMSG has taken a reply. -/
theorem reply_follows {m : Snios} {hdr reply : List Byte} (next : Option (List Byte) → Calling α)
    (hactive : Active m) (hhdr : hdr.length = 5) (hsiz : reply.length = (siz hdr).toNat + 1) :
    ∃ m', Follows (Caller.act port msg) (.calling true ⟨rcvmsg port msg m, 0⟩ next)
        ((frameTurns hdr reply).map Turn.dual)
        (Caller.start port msg (next (if verdict m.slaveid (hdr.getD 1 0#8) = 0#8 then some reply
          else none)) m') ∧
      Active m' ∧ m'.slaveid = m.slaveid := by
  let m' := received port msg m hdr reply
  obtain ⟨hmem, ha⟩ : m'.mem = storeAt m.mem msg (hdr ++ reply) ∧
      m'.a = verdict m.slaveid (hdr.getD 1 0#8) :=
    received_stores port msg (frameOf hdr reply hhdr hsiz)
  have hreturned : Returned m' := accept_returned port rfl rfl
  have hlen : (hdr ++ reply).length = 5 + reply.length := by rw [List.length_append, hhdr]
  have hsmall := (siz hdr).isLt
  have hstored : loadAt m'.mem msg (5 + reply.length) = hdr ++ reply := by
    rw [← hlen]
    exact (congrArg (loadAt · msg _) hmem).trans (loadAt_storeAt _ _ (by omega))
  have hreply : replyAt msg m' = reply := by
    have hfour : m'.mem (msg + 4#16) = siz hdr := by
      have hplace := congrArg (fun bytes => bytes.getD 4 0#8) hstored
      rw [loadAt_append, List.getD_append _ _ _ _ (by rw [length_loadAt]; omega),
        List.getD_append _ _ _ _ (by omega), List.getD_eq_getElem _ _
          (by rw [length_loadAt]; omega),
        getElem_loadAt] at hplace
      exact hplace
    rw [loadAt_append] at hstored
    rw [replyAt, hfour, ← hsiz]
    exact (List.append_inj hstored (by rw [length_loadAt, hhdr])).2
  have hfollows := caller_follows port msg true next
    (client_takes_frame port msg hactive hhdr hsiz)
  have hwaits : Client.act port ⟨rcvmsg port msg m, 0⟩ ≠ .rest := by
    have hrecv : rcvmsg port msg m = rcvms0 msg (called m) := if_neg hactive
    rw [hrecv]
    exact nofun
  rw [goOn_within port msg true next hwaits, goOn_back port msg true next hreturned.place, ha,
    hreply] at hfollows
  refine ⟨m', ?_, hactive, rfl⟩
  by_cases hzero : verdict m.slaveid (hdr.getD 1 0#8) = 0#8
  · rw [if_pos hzero]
    rw [if_neg (not_not_intro hzero), if_pos rfl] at hfollows
    exact hfollows
  · rw [if_neg hzero]
    rw [if_pos hzero] at hfollows
    exact hfollows

end Call

end Link
end Rc700
