/-
# The clients' side of the UDP handshake

`UdpClient::connect` in `corpc_message_client.cpp`, and `Handshake` in `UdpMessageClient.cs` and
`KcpMessageClient.cs` under `clients/unity/Corpc`.  A client sends HANDSHAKE_1 until HANDSHAKE_2
comes, and then HANDSHAKE_3 until HANDSHAKE_4 comes.

An input of a client is the end of one wait: a datagram, or the time is up.  The C++
client polls, so a timeout leaves nothing behind.  A Unity client waits for the first
of `ReceiveAsync` and `Task.Delay` and drops the receive when the delay wins; the
receive stays with the socket, which serves its receives in their order, and takes the
next datagram away.
-/

import Corpc.Basis.BigEndian
import Corpc.Wire.Define

namespace Corpc.Udp

open Corpc.Basis Wire List

def handshakeMsg (type : Int32) : List UInt8 := beBytes 4 type.toUInt32.toNat

def msgType (buf : List UInt8) : Int32 := (UInt32.ofNat (field buf 0 4)).toInt32

def isHandshake (type : Int32) (buf : List UInt8) : Bool :=
  buf.length == udpHandshakeSize && msgType buf == type

@[simp]
theorem length_handshakeMsg (type : Int32) : (handshakeMsg type).length = udpHandshakeSize :=
  length_beBytes _ _

@[simp]
theorem msgType_handshakeMsg (type : Int32) : msgType (handshakeMsg type) = type := by
  simp [msgType, handshakeMsg, field_eq_beVal, beVal_beBytes,
    Nat.mod_eq_of_lt type.toUInt32.toNat_lt]

inductive Place
  | step1
  | step2
  | connected
  | failed
  deriving DecidableEq

inductive Input
  | timeout
  | datagram (buf : List UInt8)
  deriving DecidableEq

/-- `UdpClient::connect`: one turn of the loop of the step it is in. -/
def UdpClient.connect : Place → Input → Place
  | .step1, .timeout => .step1
  | .step1, .datagram buf =>
    if buf.length ≠ udpHandshakeSize then .failed
    else if msgType buf ≠ msgTypeUdpHandshake2 then .failed
    else .step2
  | .step2, .timeout => .step2
  | .step2, .datagram buf =>
    if buf.length ≠ udpHandshakeSize then .failed
    else if msgType buf = msgTypeUdpHandshake2 then .step2
    else if msgType buf ≠ msgTypeUdpHandshake4 then .failed
    else .connected
  | .connected, _ => .connected
  | .failed, _ => .failed

/-- What `Handshake` of the Unity clients makes of a datagram that its receive returns. -/
def unityRead : Place → List UInt8 → Place
  | .step1, buf =>
    if buf.length ≠ udpHandshakeSize then .failed
    else if msgType buf ≠ msgTypeUdpHandshake2 then .failed
    else .step2
  | .step2, buf =>
    if buf.length ≠ udpHandshakeSize then .failed
    else if msgType buf ≠ msgTypeUdpHandshake4 then .failed
    else .connected
  | .connected, _ => .connected
  | .failed, _ => .failed

/-- A client: `abandoned` receives are still with its socket. -/
structure Client where
  place : Place
  abandoned : ℕ
  deriving DecidableEq

def Place.waits : Place → Bool
  | .step1 | .step2 => true
  | _ => false

/-- `Handshake` of a Unity client: one turn of its loop, or a datagram that an abandoned
receive takes. -/
def unityHandshake (c : Client) : Input → Client
  | .timeout => if c.place.waits then { c with abandoned := c.abandoned + 1 } else c
  | .datagram buf =>
    if c.place.waits then
      if 0 < c.abandoned then { c with abandoned := c.abandoned - 1 }
      else { c with place := unityRead c.place buf }
    else c

def UdpMessageClient.handshake : Client → Input → Client := unityHandshake

def KcpMessageClient.handshake : Client → Input → Client := unityHandshake

inductive Kind
  | udpClient
  | udpMessageClient
  | kcpMessageClient
  deriving DecidableEq

def Client.step : Kind → Client → Input → Client
  | .udpClient, c, x => { c with place := UdpClient.connect c.place x }
  | .udpMessageClient, c, x => UdpMessageClient.handshake c x
  | .kcpMessageClient, c, x => KcpMessageClient.handshake c x

def Place.sends : Place → List (List UInt8)
  | .step1 => [handshakeMsg msgTypeUdpHandshake1]
  | .step2 => [handshakeMsg msgTypeUdpHandshake3]
  | _ => []

/-- What a client sends after an input, which is nothing where the input went to an
abandoned receive. -/
def Client.sends (kind : Kind) (c : Client) (x : Input) : List (List UInt8) :=
  match kind, x with
  | .udpClient, _ | _, .timeout => (c.step kind x).place.sends
  | _, .datagram _ => if 0 < c.abandoned then [] else (c.step kind x).place.sends

def Client.init : Client := ⟨.step1, 0⟩

def Place.verdict : Place → Option Bool
  | .connected => some true
  | .failed => some false
  | _ => none

def verdict (kind : Kind) (xs : List Input) : Option Bool :=
  (xs.foldl (Client.step kind) Client.init).place.verdict

def datagrams : List Input → List (List UInt8)
  | [] => []
  | .timeout :: xs => datagrams xs
  | .datagram buf :: xs => buf :: datagrams xs

/-- The datagrams that are left after `abandoned` receives have each taken one: what a
Unity client reads. -/
def awaited : ℕ → List Input → List (List UInt8)
  | _, [] => []
  | abandoned, .timeout :: xs => awaited (abandoned + 1) xs
  | 0, .datagram buf :: xs => buf :: awaited 0 xs
  | abandoned + 1, .datagram _ :: xs => awaited abandoned xs

/-- The second step in turn: HANDSHAKE_2 again, where that is `again` allowed, and
HANDSHAKE_4 if the handshake is `done`. -/
inductive InTurn2 (again : Bool) : Bool → List (List UInt8) → Prop
  | nil : InTurn2 again false []
  | two {done : Bool} {buf : List UInt8} {bufs : List (List UInt8)} (h : again = true)
      (h2 : isHandshake msgTypeUdpHandshake2 buf = true) (hrest : InTurn2 again done bufs) :
      InTurn2 again done (buf :: bufs)
  | four {buf : List UInt8} {bufs : List (List UInt8)}
      (h4 : isHandshake msgTypeUdpHandshake4 buf = true) : InTurn2 again true (buf :: bufs)

/-- **The datagrams read are those the client waits for:** HANDSHAKE_2 first, then the
second step. -/
inductive InTurn (again : Bool) : Bool → List (List UInt8) → Prop
  | nil : InTurn again false []
  | two {done : Bool} {buf : List UInt8} {bufs : List (List UInt8)}
      (h2 : isHandshake msgTypeUdpHandshake2 buf = true) (hrest : InTurn2 again done bufs) :
      InTurn again done (buf :: bufs)

theorem isHandshake_iff {type : Int32} {buf : List UInt8} :
    isHandshake type buf = true ↔ buf.length = udpHandshakeSize ∧ msgType buf = type := by
  simp [isHandshake]

theorem foldl_udpClient (xs : List Input) (c : Client) :
    (xs.foldl (Client.step .udpClient) c).place =
      (datagrams xs).foldl (fun p buf => UdpClient.connect p (.datagram buf)) c.place := by
  induction xs generalizing c with
  | nil => rfl
  | cons x xs ih =>
    rw [foldl_cons, ih]
    rcases x with _ | buf
    · rcases c with ⟨_ | _ | _ | _, n⟩ <;> rfl
    · rfl

theorem foldl_unity_of_not_waits {c : Client} (h : c.place.waits = false) (xs : List Input) :
    xs.foldl unityHandshake c = c := by
  induction xs with
  | nil => rfl
  | cons x xs ih =>
    have hx : unityHandshake c x = c := by
      rcases x with _ | buf <;> simp [unityHandshake, h]
    rw [foldl_cons, hx, ih]

theorem foldl_unityRead_of_not_waits {p : Place} (h : p.waits = false) (bufs : List (List UInt8)) :
    bufs.foldl unityRead p = p := by
  induction bufs with
  | nil => rfl
  | cons buf bufs ih =>
    have hbuf : unityRead p buf = p := by
      rcases p with _ | _ | _ | _
      · nomatch h
      · nomatch h
      · rfl
      · rfl
    rw [foldl_cons, hbuf, ih]

theorem foldl_unity (xs : List Input) (p : Place) (n : ℕ) :
    (xs.foldl unityHandshake ⟨p, n⟩).place = (awaited n xs).foldl unityRead p := by
  induction xs generalizing p n with
  | nil => rfl
  | cons x xs ih =>
    by_cases hw : p.waits = true
    · rcases x with _ | buf
      · rw [foldl_cons, awaited, ← ih p (n + 1), unityHandshake, if_pos hw]
      · rcases n with _ | n
        · rw [foldl_cons, awaited, foldl_cons, ← ih (unityRead p buf) 0,
            unityHandshake, if_pos hw, if_neg (lt_irrefl 0)]
        · rw [foldl_cons, awaited, ← ih p n, unityHandshake, if_pos hw, if_pos (Nat.succ_pos n)]
          rfl
    · have hover : p.waits = false := by simpa using hw
      rw [foldl_unity_of_not_waits hover, foldl_unityRead_of_not_waits hover]

theorem foldl_connect_of_not_waits {p : Place} (h : p.waits = false) (bufs : List (List UInt8)) :
    bufs.foldl (fun p buf => UdpClient.connect p (.datagram buf)) p = p := by
  induction bufs with
  | nil => rfl
  | cons buf bufs ih =>
    have hbuf : UdpClient.connect p (.datagram buf) = p := by
      rcases p with _ | _ | _ | _
      · nomatch h
      · nomatch h
      · rfl
      · rfl
    rw [foldl_cons, hbuf, ih]

theorem verdict_connect_step2 (done : Bool) (bufs : List (List UInt8)) :
    (bufs.foldl (fun p buf => UdpClient.connect p (.datagram buf)) .step2).verdict =
        (if done then some true else none) ↔ InTurn2 true done bufs := by
  induction bufs with
  | nil =>
    constructor
    · intro h
      rcases done with _ | _
      · exact .nil
      · nomatch h
    · rintro ⟨⟩
      rfl
  | cons buf bufs ih =>
    rw [foldl_cons, UdpClient.connect]
    by_cases h2 : isHandshake msgTypeUdpHandshake2 buf = true
    · -- HANDSHAKE_2 again
      obtain ⟨hlen, htype⟩ := isHandshake_iff.1 h2
      rw [if_neg (not_not.2 hlen), if_pos htype, ih]
      constructor
      · exact .two rfl h2
      · rintro (_ | ⟨-, -, hrest⟩ | h4)
        · exact hrest
        · exact absurd (htype.symm.trans (isHandshake_iff.1 h4).2) (by decide)
    · by_cases h4 : isHandshake msgTypeUdpHandshake4 buf = true
      · obtain ⟨hlen, htype⟩ := isHandshake_iff.1 h4
        have hne : msgType buf ≠ msgTypeUdpHandshake2 := htype ▸ by decide
        rw [if_neg (not_not.2 hlen), if_neg hne, if_neg (not_not.2 htype),
          foldl_connect_of_not_waits rfl]
        constructor
        · intro h
          rcases done with _ | _
          · nomatch h
          · exact .four h4
        · rintro (_ | ⟨-, h2', -⟩ | -)
          · exact absurd h2' h2
          · rfl
      · -- anything else
        have hfail : (if buf.length ≠ udpHandshakeSize then Place.failed
            else if msgType buf = msgTypeUdpHandshake2 then .step2
            else if msgType buf ≠ msgTypeUdpHandshake4 then .failed else .connected) = .failed := by
          rw [isHandshake_iff] at h2 h4
          split_ifs with hlen htype htype'
          · rfl
          · exact absurd ⟨not_not.1 hlen, htype⟩ h2
          · rfl
          · exact absurd ⟨not_not.1 hlen, not_not.1 htype'⟩ h4
        rw [hfail, foldl_connect_of_not_waits rfl]
        constructor
        · intro h
          rcases done with _ | _ <;> nomatch h
        · rintro (_ | ⟨-, h2', -⟩ | h4')
          · exact absurd h2' h2
          · exact absurd h4' h4

theorem verdict_unityRead_step2 (done : Bool) (bufs : List (List UInt8)) :
    (bufs.foldl unityRead .step2).verdict = (if done then some true else none) ↔
      InTurn2 false done bufs := by
  rcases bufs with _ | ⟨buf, bufs⟩
  · constructor
    · intro h
      rcases done with _ | _
      · exact .nil
      · nomatch h
    · rintro ⟨⟩
      rfl
  · rw [foldl_cons, unityRead]
    by_cases h4 : isHandshake msgTypeUdpHandshake4 buf = true
    · obtain ⟨hlen, htype⟩ := isHandshake_iff.1 h4
      rw [if_neg (not_not.2 hlen), if_neg (not_not.2 htype), foldl_unityRead_of_not_waits rfl]
      constructor
      · intro h
        rcases done with _ | _
        · nomatch h
        · exact .four h4
      · rintro (_ | ⟨hagain, -, -⟩ | -)
        · nomatch hagain
        · rfl
    · have hfail : (if buf.length ≠ udpHandshakeSize then Place.failed
          else if msgType buf ≠ msgTypeUdpHandshake4 then .failed else .connected) = .failed := by
        rw [isHandshake_iff] at h4
        split_ifs with hlen htype
        · rfl
        · rfl
        · exact absurd ⟨not_not.1 hlen, not_not.1 htype⟩ h4
      rw [hfail, foldl_unityRead_of_not_waits rfl]
      constructor
      · intro h
        rcases done with _ | _ <;> nomatch h
      · rintro (_ | ⟨hagain, -, -⟩ | h4')
        · nomatch hagain
        · exact absurd h4' h4

theorem verdict_step1 {read : Place → List UInt8 → Place} {again : Bool}
    (hfirst : ∀ buf, read .step1 buf = if buf.length ≠ udpHandshakeSize then .failed
      else if msgType buf ≠ msgTypeUdpHandshake2 then .failed else .step2)
    (hfailed : ∀ bufs : List (List UInt8), bufs.foldl read .failed = .failed)
    (hsecond : ∀ done bufs, (bufs.foldl read .step2).verdict = (if done then some true else none) ↔
      InTurn2 again done bufs) (done : Bool) (bufs : List (List UInt8)) :
    (bufs.foldl read .step1).verdict = (if done then some true else none) ↔
      InTurn again done bufs := by
  rcases bufs with _ | ⟨buf, bufs⟩
  · constructor
    · intro h
      rcases done with _ | _
      · exact .nil
      · nomatch h
    · rintro ⟨⟩
      rfl
  · rw [foldl_cons, hfirst]
    by_cases h2 : isHandshake msgTypeUdpHandshake2 buf = true
    · obtain ⟨hlen, htype⟩ := isHandshake_iff.1 h2
      rw [if_neg (not_not.2 hlen), if_neg (not_not.2 htype), hsecond]
      constructor
      · exact .two h2
      · rintro (_ | ⟨-, hrest⟩)
        exact hrest
    · have hfail : (if buf.length ≠ udpHandshakeSize then Place.failed
          else if msgType buf ≠ msgTypeUdpHandshake2 then .failed else .step2) = .failed := by
        rw [isHandshake_iff] at h2
        split_ifs with hlen htype
        · rfl
        · rfl
        · exact absurd ⟨not_not.1 hlen, not_not.1 htype⟩ h2
      rw [hfail, hfailed]
      constructor
      · intro h
        rcases done with _ | _ <;> nomatch h
      · rintro (_ | ⟨h2', -⟩)
        exact absurd h2' h2

theorem verdict_udpClient_iff (done : Bool) (xs : List Input) :
    verdict .udpClient xs = (if done then some true else none) ↔
      InTurn true done (datagrams xs) := by
  rw [verdict, foldl_udpClient]
  exact verdict_step1 (fun _ => rfl) (fun bufs => foldl_connect_of_not_waits rfl bufs)
    verdict_connect_step2 done (datagrams xs)

theorem verdict_unity_iff {kind : Kind} (hkind : kind ≠ .udpClient) (done : Bool)
    (xs : List Input) :
    verdict kind xs = (if done then some true else none) ↔ InTurn false done (awaited 0 xs) := by
  have hfold : (xs.foldl (Client.step kind) Client.init).place =
      (awaited 0 xs).foldl unityRead .step1 := by
    rcases kind with _ | _ | _
    · exact absurd rfl hkind
    · exact foldl_unity xs .step1 0
    · exact foldl_unity xs .step1 0
  rw [verdict, hfold]
  exact verdict_step1 (fun _ => rfl) (fun bufs => foldl_unityRead_of_not_waits rfl bufs)
    verdict_unityRead_step2 done (awaited 0 xs)

end Corpc.Udp
