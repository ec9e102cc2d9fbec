/-
# Protobuf messages

What the code uses of `google::protobuf::Message`, which is not part of the repository.
-/

import Mathlib.Data.List.Basic

namespace Corpc.Wire

open List

/-- Messages `μ` of the types `δ`. -/
structure Protobuf (δ μ : Type) where
  descriptor : μ → δ
  new : δ → μ
  serialize : μ → List UInt8
  /-- `ParseFromArray` into a message of a type, whose old value it clears -/
  parseFromArray : δ → List UInt8 → Option μ
  mergeFrom : μ → μ → μ
  descriptor_new : ∀ d, descriptor (new d) = d
  parse_serialize : ∀ m, parseFromArray (descriptor m) (serialize m) = some m
  mergeFrom_new : ∀ m, mergeFrom (new (descriptor m)) m = m

namespace Protobuf

variable {δ μ : Type}

/-- The message is as `New` made it. -/
def Empty (pb : Protobuf δ μ) (m : μ) : Prop := m = pb.new (pb.descriptor m)

/-- No message is read from a first part of its bytes, nor from its bytes with zeros behind them:
a field that is cut off is missing or does not parse, and no field has the tag `0`. -/
def Exact (pb : Protobuf δ μ) : Prop :=
  ∀ m n, pb.parseFromArray (pb.descriptor m)
    ((pb.serialize m).take n ++ List.replicate (n - (pb.serialize m).length) 0) = some m →
    n = (pb.serialize m).length

/-- Messages that are a type and their bytes; merging appends, as it does for
encoded messages. -/
def ofBytes (δ : Type) : Protobuf δ (δ × List UInt8) where
  descriptor := Prod.fst
  new := fun d => (d, [])
  serialize := Prod.snd
  parseFromArray := fun d bytes => some (d, bytes)
  mergeFrom := fun m n => (m.1, m.2 ++ n.2)
  descriptor_new := fun _ => rfl
  parse_serialize := fun _ => rfl
  mergeFrom_new := fun _ => rfl

theorem exact_ofBytes (δ : Type) : (ofBytes δ).Exact := by
  intro m n h
  have hbytes := congrArg (fun m => m.2.length) (Option.some.inj h)
  simp only [ofBytes, length_append, length_take, length_replicate] at hbytes ⊢
  omega

theorem parse_of_bytes (pb : Protobuf δ μ) {m : μ} {d : δ} {bytes : List UInt8}
    (hd : pb.descriptor m = d) (hb : bytes = pb.serialize m) :
    pb.parseFromArray d bytes = some m := by
  rw [← hd, hb, pb.parse_serialize]

theorem mergeFrom_empty (pb : Protobuf δ μ) {m n : μ} (hn : pb.Empty n)
    (hd : pb.descriptor m = pb.descriptor n) : pb.mergeFrom n m = m := by
  rw [hn, ← hd, pb.mergeFrom_new]

/-- The fields of the messages, as `MergeFrom` documents them: merging keeps what the source does
not have, takes what it has, and appends the repeated fields.  A field of a sub-message counts under
its whole path. -/
structure Fields (pb : Protobuf δ μ) (φ ρ α : Type) where
  singular : μ → φ → Option α
  repeated : μ → ρ → List α
  ext : ∀ m n, pb.descriptor m = pb.descriptor n → singular m = singular n →
    repeated m = repeated n → m = n
  descriptor_mergeFrom : ∀ m n, pb.descriptor (pb.mergeFrom m n) = pb.descriptor m
  singular_mergeFrom : ∀ m n f, singular (pb.mergeFrom m n) f = (singular n f).or (singular m f)
  repeated_mergeFrom : ∀ m n r, repeated (pb.mergeFrom m n) r = repeated m r ++ repeated n r

namespace Fields

variable {pb : Protobuf δ μ} {φ ρ α : Type}

/-- Nothing of the old content shows in a merge with `m`: `m` sets each singular field that the
old content has, and the old content has no element of a repeated one. -/
def Covers (F : pb.Fields φ ρ α) (m old : μ) : Prop :=
  (∀ f, (F.singular old f).isSome → (F.singular m f).isSome) ∧ ∀ r, F.repeated old r = []

theorem mergeFrom_eq_iff (F : pb.Fields φ ρ α) {m old : μ}
    (hd : pb.descriptor m = pb.descriptor old) : pb.mergeFrom old m = m ↔ F.Covers m old := by
  constructor
  · intro h
    refine ⟨fun f hf => ?_, fun r => ?_⟩
    · have hor := F.singular_mergeFrom old m f
      rw [h] at hor
      rw [hor, Option.isSome_or, hf, Bool.or_true]
    · have happ := F.repeated_mergeFrom old m r
      rw [h] at happ
      exact self_eq_append_left.1 happ
  · rintro ⟨hsing, hrep⟩
    refine F.ext _ _ ((F.descriptor_mergeFrom old m).trans hd.symm) (funext fun f => ?_)
      (funext fun r => ?_)
    · rw [F.singular_mergeFrom]
      cases hm : F.singular m f with
      | some a => rfl
      | none =>
        have hold : F.singular old f = none := by
          have hnot : ¬(F.singular old f).isSome := fun h => by
            have := hsing f h
            rw [hm] at this
            cases this
          simpa using hnot
        rw [hold]
        rfl
    · rw [F.repeated_mergeFrom, hrep r, nil_append]

end Fields

def optionalRepeated : Protobuf Unit (Option UInt8 × List UInt8) where
  descriptor := fun _ => ()
  new := fun _ => (none, [])
  serialize := fun
    | (none, bytes) => 0 :: bytes
    | (some b, bytes) => 1 :: b :: bytes
  parseFromArray := fun _ => fun
    | 0 :: bytes => some (none, bytes)
    | 1 :: b :: bytes => some (some b, bytes)
    | _ => none
  mergeFrom := fun m n => (n.1.or m.1, m.2 ++ n.2)
  descriptor_new := fun _ => rfl
  parse_serialize := fun
    | (none, _) => rfl
    | (some _, _) => rfl
  mergeFrom_new := fun
    | (none, _) => rfl
    | (some _, _) => rfl

def optionalRepeatedFields : optionalRepeated.Fields Unit Unit UInt8 where
  singular := fun m _ => m.1
  repeated := fun m _ => m.2
  ext := fun _ _ _ h₁ h₂ => Prod.ext (congrFun h₁ ()) (congrFun h₂ ())
  descriptor_mergeFrom := fun _ _ => rfl
  singular_mergeFrom := fun _ _ _ => rfl
  repeated_mergeFrom := fun _ _ _ => rfl

end Protobuf

end Corpc.Wire
