import OperatorModes.Json.Record
import OperatorModes.Proofs.Json.Reader

/-!
# Records read back

A record is written with its fields as members. `Shape.Fills` says that members fill a draft, each a
field of its own; then the object is read as what the filled draft becomes (`reads_record`). Nothing
is said of the order of the members, nor that every field is there: a missing field is the concern
of the closing of the draft. Decoding a document goes the same way, one member at a time
(`Shape.gather_cons`). What a record does with a budget depends on its fields with smaller budgets
only (`record_congr`), which is what makes the fuel of a record of its own kind harmless.
-/

namespace OperatorModes.Json

variable {α σ : Type}

/-! ## From text -/

/-- **Members that fill a draft**: each of them is a field that is still free, and its document is
read as the value with which the draft goes on. -/
inductive Shape.Fills (shape : Shape Reader σ α) : List (String × Json) → σ → σ → Prop
  | nil (draft : σ) : shape.Fills [] draft draft
  | cons {key : String} {v : Json} {ms : List (String × Json)} {slot : Slot Reader σ}
      {draft next final : σ} (hslot : shape.slot? key = some slot)
      (hfree : slot.isFilled draft = false) (hread : Reads (slot.read draft) v next)
      (hrest : shape.Fills ms next final) : shape.Fills ((key, v) :: ms) draft final

/-- A member with the key of a free field is read by the reader of the field. -/
theorem Shape.member_of_slot {shape : Shape Reader σ α} {key : String} {slot : Slot Reader σ}
    {draft : σ} (hslot : shape.slot? key = some slot) (hfree : slot.isFilled draft = false)
    (budget : Nat) (v : Json) (rest : List Char) :
    shape.member budget draft (memberBefore key v rest)
      = slot.read draft budget (v.before rest) := by
  unfold Shape.member
  rw [string_memberBefore]
  simp only [bind, Except.bind, hslot, hfree]
  rfl

theorem Shape.Fills.gathers {shape : Shape Reader σ α} {ms : List (String × Json)}
    {draft final : σ} (h : shape.Fills ms draft final) (budget : Nat) :
    Gathers (shape.member budget) budget ms draft final := by
  induction h with
  | nil draft => exact .nil draft
  | @cons key v ms slot draft next final hslot hfree hread _ ih =>
    refine .cons ?_ ih
    intro rest hstops
    rw [Shape.member_of_slot hslot hfree]
    exact hread budget rest hstops

theorem reads_record {shape : Shape Reader σ α} {ms : List (String × Json)} {final : σ} {a : α}
    (h : shape.Fills ms shape.blank final) (hclose : shape.close final = .ok a) :
    Reads (record shape) (.obj ms) a := by
  intro budget rest _
  show enclosed budget _ = _
  refine enclosed_within (fun b => ?_) budget
  rw [members_membersBefore (h.gathers b) rest]
  refine bind_within_ok ?_
  dsimp only
  rw [hclose]
  rfl

theorem reads_field {β : Type} {key : String} {isOptional : Bool} {get : σ → Option β}
    {put : σ → β → σ} {reader : Reader β} {v : Json} {x : β} (h : Reads reader v x) (draft : σ) :
    Reads ((field key isOptional get put reader).read draft) v (put draft x) :=
  h.map (put draft)

/-! ## What the budget leaves to the parts -/

theorem list_congr {item item' : Reader α} {budget : Nat} (h : ∀ b < budget, item b = item' b) :
    list item budget = list item' budget := by
  cases budget with
  | zero =>
    funext text
    unfold list
    split <;> rfl
  | succ b =>
    funext text
    unfold list
    split
    · show items (item b) true _ = items (item' b) true _
      rw [h b (Nat.lt_succ_self b)]
    · rfl

/-- The slot with its reader held at one budget. -/
def Slot.at (slot : Slot Reader σ) (budget : Nat) : Slot Reader σ :=
  { slot with read := fun draft _ => slot.read draft budget }

/-- The shape with the readers of its fields held at one budget. -/
def Shape.at (shape : Shape Reader σ α) (budget : Nat) : Shape Reader σ α :=
  { shape with slots := shape.slots.map fun slot => slot.at budget }

theorem Shape.slot?_at (shape : Shape Reader σ α) (budget : Nat) (key : String) :
    (shape.at budget).slot? key = (shape.slot? key).map fun slot => slot.at budget := by
  rw [Shape.slot?, Shape.at, List.find?_map]
  rfl

theorem Shape.checkRest_at (shape : Shape Reader σ α) (budget : Nat)
    (remaining : List (Slot Reader σ)) (length : Nat) :
    (shape.at budget).checkRest (remaining.map fun slot => slot.at budget) length
      = shape.checkRest remaining length := by
  have hindex : (remaining.map fun slot => slot.at budget).findIdx? (fun slot => !slot.isOptional)
      = remaining.findIdx? fun slot => !slot.isOptional := List.findIdx?_map ..
  have hshort : ∀ n, (shape.at budget).tooShort n = shape.tooShort n := by
    intro n
    simp only [Shape.tooShort, Shape.at, List.length_map]
  unfold Shape.checkRest
  rw [hindex]
  simp only [hshort]

theorem Shape.member_at (shape : Shape Reader σ α) (budget : Nat) :
    (shape.at budget).member budget = shape.member budget := by
  funext draft text
  unfold Shape.member
  refine bind_congr fun r => ?_
  dsimp only
  rw [Shape.slot?_at]
  cases shape.slot? r.1 <;> rfl

theorem Shape.elements_at (shape : Shape Reader σ α) (budget : Nat) :
    ∀ (slots : List (Slot Reader σ)) (length : Nat) (draft : σ) (text : List Char),
      (shape.at budget).elements budget (slots.map fun slot => slot.at budget) length draft text
        = shape.elements budget slots length draft text
  | [], _, _, _ => rfl
  | slot :: slots, length, draft, text => by
    rw [List.map_cons, Shape.elements, Shape.elements]
    refine bind_congr fun next => ?_
    cases next with
    | none =>
      dsimp only
      rw [← List.map_cons (f := fun slot : Slot Reader σ => slot.at budget), Shape.checkRest_at]
    | some text => exact bind_congr fun r => elements_at shape budget slots (length + 1) r.1 r.2

/-- A record reads its fields with what its bracket leaves of the budget. -/
theorem record_at (shape : Shape Reader σ α) (budget : Nat) :
    record (shape.at budget) (budget + 1) = record shape (budget + 1) := by
  funext text
  unfold record
  split
  · show (members ((shape.at budget).member budget) _ _ >>= _) = _
    rw [Shape.member_at]
    rfl
  · show ((shape.at budget).elements budget (shape.slots.map fun slot => slot.at budget) _ _ _ >>= _)
      = _
    rw [Shape.elements_at]
    rfl
  · rfl

/-- Of the readers of its fields a record needs only what they do with less than its own budget. -/
theorem record_congr {shape shape' : Shape Reader σ α} {budget : Nat}
    (hname : shape.name = shape'.name) (h : ∀ b < budget, shape.at b = shape'.at b) :
    record shape budget = record shape' budget := by
  cases budget with
  | zero =>
    funext text
    unfold record
    rw [hname]
    split
    · rw [enclosed, enclosed]
    · rw [enclosed, enclosed]
    · rfl
  | succ b => rw [← record_at, h b (Nat.lt_succ_self b), record_at]
/-! ## From a document -/

theorem Shape.gather_cons {shape : Shape Decoder σ α} {key : String} {v : Json}
    {ms : List (String × Json)} {slot : Slot Decoder σ} {draft next final : σ}
    (hslot : shape.slot? key = some slot) (hfree : slot.isFilled draft = false)
    (hread : slot.read draft v = .ok next) (hrest : shape.gather ms next = .ok final) :
    shape.gather ((key, v) :: ms) draft = .ok final := by
  rw [Shape.gather, hslot]
  dsimp only
  rw [hfree, hread]
  exact hrest

theorem decodeRecord_obj {shape : Shape Decoder σ α} {leftOver : Nat → Nat → ReadError}
    {ms : List (String × Json)} {final : σ} {a : α} (hms : shape.gather ms shape.blank = .ok final)
    (hclose : shape.close final = .ok a) : decodeRecord shape leftOver (.obj ms) = .ok a := by
  rw [decodeRecord, hms]
  exact hclose

theorem read_part {β : Type} {key : String} {isOptional : Bool} {get : σ → Option β}
    {put : σ → β → σ} {decoder : Decoder β} {v : Json} {x : β} (h : decoder v = .ok x)
    (draft : σ) : (part key isOptional get put decoder).read draft v = .ok (put draft x) := by
  simp only [part, h]

theorem decodeEach_map {decoder : Decoder α} {encode : α → Json} :
    ∀ {xs : List α}, (∀ x ∈ xs, decoder (encode x) = .ok x) →
      decodeEach decoder (xs.map encode) = .ok xs
  | [], _ => rfl
  | x :: xs, h => by
    rw [List.map_cons, decodeEach, h x List.mem_cons_self,
      decodeEach_map fun y hy => h y (List.mem_cons_of_mem x hy)]
    rfl

end OperatorModes.Json
