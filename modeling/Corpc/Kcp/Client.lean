/-
# KCP packages and the Unity client

`KcpMessageTerminal::Connection::write` in `corpc_kcp.cpp`, which cuts what the sender
writes into packages, and `KcpMessageClient.RecvMsgLoop` in
`clients/unity/Corpc/KcpMessageClient.cs`, which reads them.  KCP itself delivers packages whole and
in order.

A `ProtoMessage` whose type has no parser is queued with a null body (`Deserialize`); its bytes
are lost.  `TryRecv` puts a package into memory that may be longer, so a slice past the end of the
package reads what is there, and one past the end of the memory throws.  `Debug.Assert` only logs.
Serials are read as `uint` and compared with an `int`, as 64-bit integers; serial 0 is taken as
well.
-/

import Corpc.Message.RoundTrip

namespace Corpc.Kcp

open Corpc.Basis Wire Message Pipeline List

variable {δ μ : Type}

/-- The loop of `write` over the bytes that are left. -/
def writeLoop : ℕ → List UInt8 → List (List UInt8)
  | 0, left => [left]
  | n + 1, left =>
    if maxKcpPackageSize < left.length then
      left.take maxKcpPackageSize :: writeLoop n (left.drop maxKcpPackageSize)
    else [left]

/-- `KcpMessageTerminal::Connection::write`: the packages given to `kcpSend`. -/
def write (buf : List UInt8) : List (List UInt8) :=
  writeLoop (buf.length / maxKcpPackageSize) buf

theorem flatten_writeLoop (n : ℕ) (left : List UInt8) : (writeLoop n left).flatten = left := by
  induction n generalizing left with
  | zero => simp [writeLoop]
  | succ n ih =>
    unfold writeLoop
    split_ifs
    · rw [flatten_cons, ih, take_append_drop]
    · simp

theorem length_of_mem_writeLoop {n : ℕ} {left : List UInt8}
    (hn : left.length / maxKcpPackageSize ≤ n) :
    ∀ package ∈ writeLoop n left, package.length ≤ maxKcpPackageSize := by
  have hpos : 0 < maxKcpPackageSize := by decide
  induction n generalizing left with
  | zero =>
    have hlt : left.length < maxKcpPackageSize :=
      (Nat.div_eq_zero_iff_lt hpos).1 (Nat.le_zero.1 hn)
    simp only [writeLoop, mem_singleton, forall_eq]
    omega
  | succ n ih =>
    unfold writeLoop
    split_ifs with hlong
    · have hdrop : (left.drop maxKcpPackageSize).length / maxKcpPackageSize ≤ n := by
        rw [length_drop]
        unfold maxKcpPackageSize at hn hlong ⊢
        omega
      intro package hp
      rcases mem_cons.1 hp with rfl | hp
      · rw [length_take]
        omega
      · exact ih hdrop package hp
    · simp only [mem_singleton, forall_eq]
      omega

theorem flatten_write (buf : List UInt8) : (write buf).flatten = buf := flatten_writeLoop _ _

theorem length_of_mem_write {buf package : List UInt8} (h : package ∈ write buf) :
    package.length ≤ maxKcpPackageSize :=
  length_of_mem_writeLoop (Nat.le_refl _) package h

/-- The packages of `Sender::connectionRoutine`, which writes what `downflow` has put into the
buffer if it is anything. -/
def packages (outs : List (List UInt8)) : List (List UInt8) :=
  (outs.filter fun out => !out.isEmpty).flatMap write

theorem flatten_packages (outs : List (List UInt8)) : (packages outs).flatten = outs.flatten := by
  induction outs with
  | nil => rfl
  | cons out outs ih =>
    unfold packages at ih ⊢
    cases out with
    | nil => exact ih
    | cons b out =>
      rw [filter_cons_of_pos rfl, flatMap_cons, flatten_append, flatten_write, ih, flatten_cons]

theorem length_of_mem_packages {outs : List (List UInt8)} {package : List UInt8}
    (h : package ∈ packages outs) : package.length ≤ maxKcpPackageSize := by
  obtain ⟨out, -, hp⟩ := mem_flatMap.1 h
  exact length_of_mem_write hp

/-- A message that a receiver has taken, and its serial after it.  The body is `none` where
`Deserialize` has returned null and the bytes are lost; a message without a body has none to
lose. -/
structure Received where
  type : Int32
  tag : UInt16
  body : Option (List UInt8)
  serial : UInt32
  deriving DecidableEq, Repr

/-- The settings of a `KcpMessageClient`; `registerTable` has the type that the parser of a
message reads. -/
structure UnityClient (δ : Type) where
  enableSerial : Bool
  enableRecvCRC : Bool
  crypter : Option Crypter
  registerTable : Int32 → Option δ

/-- What `RecvMsgLoop` changes. -/
structure RecvState where
  lastRecvSerial : Int32
  recvMsgQueue : List Received
  deriving DecidableEq, Repr

/-- The check of the serial, and `lastRecvSerial_` after it. -/
def UnityClient.checkSerial (client : UnityClient δ) (last : Int32) (serial : UInt32) :
    Option Int32 :=
  if client.enableSerial then
    if serial ≠ 0 ∧ (serial.toNat : ℤ) ≠ (last + 1).toInt then none else some (last + 1)
  else some last

/-- `Deserialize`: null for a type that is not registered; `ParseFrom` throws at bytes that it
cannot parse. -/
def UnityClient.deserialize (pb : Protobuf δ μ) (client : UnityClient δ) (type : Int32)
    (plain : List UInt8) : Option (Option (List UInt8)) :=
  match client.registerTable type with
  | some d => if (pb.parseFromArray d plain).isSome then some (some plain) else none
  | none => some none

/-- The body of a message of a positive type: length, checksum, decryption, `Deserialize`. -/
def UnityClient.readBody (pb : Protobuf δ μ) (client : UnityClient δ) (head rest : List UInt8) :
    Option (Option (List UInt8)) :=
  let msgLen := field head 0 4
  if 0 < msgLen then
    if rest.length < msgLen then none
    else
      let buffer := rest.take msgLen
      if client.enableRecvCRC ∧ headCrc head ≠ checkSum buffer 0xFFFF then none
      else if headFlag head &&& messageFlagCrypt ≠ 0 then
        match client.crypter with
        | none => none
        | some crypter => client.deserialize pb (headType head) (crypter.decrypt buffer)
      else client.deserialize pb (headType head) buffer
  else some (some [])

/-- One turn of the loop over a package: `lastRecvSerial_`, the message, and how many bytes
were taken; a message that is not of a positive type has no body. -/
def UnityClient.readMessage (pb : Protobuf δ μ) (client : UnityClient δ) (last : Int32)
    (rest : List UInt8) : Option (Int32 × Received × ℕ) :=
  if rest.length < messageHeadSize then none
  else
    let head := rest.take messageHeadSize
    if 0 < headType head then
      (client.checkSerial last (headSerial head)).bind fun last =>
        (client.readBody pb head (rest.drop messageHeadSize)).map fun body =>
          (last, ⟨headType head, headTag head, body, last.toUInt32⟩,
            messageHeadSize + field head 0 4)
    else some (last, ⟨headType head, headTag head, some [], last.toUInt32⟩, messageHeadSize)

/-- The loop over a package: `rest` is the memory from the offset on, `left` how much of the
package lies there. -/
def UnityClient.readLoop (pb : Protobuf δ μ) (client : UnityClient δ) :
    ℕ → List UInt8 → ℕ → RecvState → Flow Unit RecvState
  | 0, _, _, s => .more s
  | n + 1, rest, left, s =>
    if left = 0 then .more s
    else
      match client.readMessage pb s.lastRecvSerial rest with
      | none => .stop () s
      | some (last, m, k) =>
        client.readLoop pb n (rest.drop k) (left - k) ⟨last, s.recvMsgQueue ++ [m]⟩

/-- `RecvMsgLoop` at a package and the bytes behind it. -/
def UnityClient.recvPackage (pb : Protobuf δ μ) (client : UnityClient δ) (s : RecvState)
    (d : List UInt8 × List UInt8) : Flow Unit RecvState :=
  client.readLoop pb d.1.length (d.1 ++ d.2) d.1.length s

/-- The bytes of what the worker gets. -/
def taskBody (pb : Protobuf δ μ) : Option (MessageWorkerTask μ) → List UInt8
  | some ⟨_, _, _, _, .raw bytes⟩ => bytes
  | some ⟨_, _, _, _, .proto m⟩ => pb.serialize m
  | some ⟨_, _, _, _, .null⟩ => []
  | none => []

/-- A connection with the messages that it has decoded. -/
structure Recorder (μ : Type) where
  conn : Connection μ
  received : List Received

/-- `MessageTerminal::decode`, recorded. -/
def recordedDecode (pb : Protobuf δ μ) (mtime : ℕ) :
    DecodeFunction (Recorder μ) (MessageWorkerTask μ) where
  decode := fun r head body =>
    (decode mtime r.conn head body).map fun q =>
      (⟨q.1, r.received ++
        [⟨headType head, headTag head, some (taskBody pb q.2), q.1.recvSerial⟩]⟩, q.2)
  isDecodeError := fun r => r.conn.decodeError
  leaves := fun r => decryptBody r.conn
  length_leaves := fun r => length_decryptBody r.conn

end Corpc.Kcp
