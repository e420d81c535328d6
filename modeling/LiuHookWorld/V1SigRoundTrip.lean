/-
# Encoded forests are reported node by node

A `Forest` is a finite sequence of trees of elements, each with a one-octet identifier
and a definite length in any of the forms `parseBERLength` decodes.  Its encoding,
followed by any octets, is reported in pre-order before those octets are looked at.
-/
import LiuHookWorld.V1SigDump

namespace V1Sig

open Ber (LengthForm)

/-! ## Forests of elements -/

/-- A sequence of trees: nothing, or a first node and the nodes after it. -/
inductive Forest
  | nil
  | primitive (id : UInt8) (form : LengthForm) (content : List UInt8) (next : Forest)
  | constructed (id : UInt8) (form : LengthForm) (children next : Forest)
  deriving DecidableEq, Repr

namespace Forest

/-- The encoding: identifier, length in the chosen form, content. -/
def encode : Forest → List UInt8
  | nil => []
  | primitive id form content next =>
      id :: form.encode content.length ++ content ++ next.encode
  | constructed id form children next =>
      id :: form.encode children.encode.length ++ children.encode ++ next.encode

/-- An identifier of one octet. -/
def OneOctet (id : UInt8) : Prop := id ≠ 0 ∧ id &&& 0x1F ≠ 0x1F

/-- One-octet identifiers that tell containers from primitives, and lengths that fit their
form with at most four octets. -/
def WellFormed : Forest → Prop
  | nil => True
  | primitive id form content next =>
      OneOctet id ∧ isContainerTag id.toUInt32 = false ∧ form.Fits 4 content.length
        ∧ next.WellFormed
  | constructed id form children next =>
      OneOctet id ∧ isContainerTag id.toUInt32 = true ∧ form.Fits 4 children.encode.length
        ∧ children.WellFormed ∧ next.WellFormed

instance (id : UInt8) : Decidable (OneOctet id) :=
  inferInstanceAs (Decidable (id ≠ 0 ∧ id &&& 0x1F ≠ 0x1F))

instance decidableWellFormed : (f : Forest) → Decidable f.WellFormed
  | nil => isTrue trivial
  | primitive id form content next =>
      have := decidableWellFormed next
      inferInstanceAs (Decidable (OneOctet id ∧ isContainerTag id.toUInt32 = false
        ∧ form.Fits 4 content.length ∧ next.WellFormed))
  | constructed id form children next =>
      have := decidableWellFormed children
      have := decidableWellFormed next
      inferInstanceAs (Decidable (OneOctet id ∧ isContainerTag id.toUInt32 = true
        ∧ form.Fits 4 children.encode.length ∧ children.WellFormed ∧ next.WellFormed))

/-- The nodes in pre-order, from a given depth. -/
def nodes (depth : ℕ) : Forest → List Report
  | nil => []
  | primitive id _ content next =>
      ⟨depth, id.toUInt32, content.length, content⟩ :: next.nodes depth
  | constructed id _ children next =>
      ⟨depth, id.toUInt32, children.encode.length, children.encode⟩
        :: (children.nodes (depth + 1) ++ next.nodes depth)

end Forest

/-! ## One encoded node -/

theorem tagValue_singleton (id : UInt8) : tagValue [id] = id.toUInt32 := by
  rw [tagValue_cons]
  rfl

/-- An encoded node reads as an element. -/
theorem reading_encoded {id : UInt8} {form : LengthForm} {content : List UInt8}
    (hid : Forest.OneOctet id) (hform : form.Fits 4 content.length) (r : List UInt8) :
    reading id (form.encode content.length ++ content ++ r) = .element [id] content r := by
  rw [reading_element_iff]
  refine ⟨form.encode content.length, ?_, .low hid.1 hid.2,
    LengthForm.encode_lengthOctets hform⟩
  simp

/-- An encoded node is reported first, then its content if it is a container. -/
theorem dump_encoded {id : UInt8} {form : LengthForm} {content : List UInt8}
    (hid : Forest.OneOctet id) (hform : form.Fits 4 content.length) (r : List UInt8)
    (depth : ℕ) :
    dump (id :: form.encode content.length ++ content ++ r) depth
      = ⟨depth, id.toUInt32, content.length, content⟩ ::
          ((if isContainerTag id.toUInt32 then dump content (depth + 1) else [])
            ++ dump r depth) := by
  have hread := reading_encoded hid hform r
  rw [List.cons_append, List.cons_append, dump_element depth hread, tagValue_singleton]

/-! ## The round trip -/

/-- Encoded nodes are reported in pre-order, and then the rest. -/
theorem dump_encode_append (f : Forest) (rest : List UInt8) :
    ∀ depth, f.WellFormed →
      dump (f.encode ++ rest) depth = f.nodes depth ++ dump rest depth := by
  induction f generalizing rest with
  | nil => intro depth _; rfl
  | primitive id form content next ih =>
      intro depth hf
      obtain ⟨hid, hprim, hform, hnext⟩ := hf
      rw [Forest.encode, List.append_assoc, dump_encoded hid hform, hprim, ih rest depth hnext]
      rfl
  | constructed id form children next ihChildren ih =>
      intro depth hf
      obtain ⟨hid, hcons, hform, hchildren, hnext⟩ := hf
      -- the content of a container is its children with nothing after them
      have hinner := ihChildren [] (depth + 1) hchildren
      rw [List.append_nil, dump_nil, List.append_nil] at hinner
      rw [Forest.encode, List.append_assoc, dump_encoded hid hform, if_pos hcons, hinner,
        ih rest depth hnext, Forest.nodes]
      simp

/-- **Decode undoes encode.**  On the encoding of a well-formed forest followed by any
octets, `parseAndPrintNested` reports the nodes in pre-order and then what it reports on
those octets alone. -/
theorem reports_encode_append (f : Forest) (hf : f.WellFormed) (depth : ℕ)
    (data rest : Vec .arm64_v8a) (hdata : data.bytes = f.encode ++ rest.bytes) :
    ∃ after, reports rest depth = .ok after
      ∧ reports data depth = .ok (f.nodes depth ++ after) := by
  refine ⟨dump rest.bytes depth, reports_arm64 rest depth, ?_⟩
  rw [reports_arm64, hdata, dump_encode_append f rest.bytes depth hf]

/-- A `SEQUENCE` of an `INTEGER` in a non-minimal length form and an empty `OCTET STRING`,
before a stray octet. -/
theorem reports_encode_append_sequence :
    let f := Forest.constructed 0x30 (.long 2)
      (.primitive 0x02 (.long 4) [5] (.primitive 0x04 .short [] .nil)) .nil
    let data : Vec .arm64_v8a := ⟨f.encode ++ [0x7F], by decide⟩
    let rest : Vec .arm64_v8a := ⟨[0x7F], by decide⟩
    ∃ after, reports rest 0 = .ok after ∧ reports data 0 = .ok (f.nodes 0 ++ after) :=
  reports_encode_append _ (by decide) 0 _ _ rfl

end V1Sig
