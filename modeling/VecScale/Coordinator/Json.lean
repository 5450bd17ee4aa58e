import VecScale.Coordinator.App
import VecScale.Lib.JsonFields

/-!
# Metadata as JSON

One JSON for the schemas: the fields in their order, under their names, without blanks.
Nothing rests on it but the concrete runs.
-/

namespace VecScale

open JsonCodec

/-- The schema that a codec makes: what cannot be read, or breaks a constraint, is no value. -/
def jsonModel {α : Type} (codec : JsonCodec α) (Valid : α → Prop) [DecidablePred Valid] :
    JsonModel α Valid where
  dump a := String.ofList (codec.write a)
  validate text :=
    match codec.read text.toList with
    | some (a, []) => if Valid a then .ok a else .error (.valueError "1 validation error")
    | _ => .error (.valueError "Invalid JSON")
  validate_dump a valid := by
    have read := codec.read_write a [] nofun
    rw [List.append_nil] at read
    simp only [String.toList_ofList, read, if_pos valid]

theorem ends_literal {first : Char} {literal : List Char} (noDigit : first.isDigit = false)
    (rest : List Char) : JsonInts.Ends (first :: literal ++ rest) := ends_cons noDigit _

def nodeCodec : JsonCodec NodeInfo :=
  let nodeId := text.behind "\x7b\"node_id\":".toList
  let role := text.behind ",\"role\":".toList
  let address := text.behind ",\"address\":".toList
  let shardIds := (numbers.behind ",\"shard_ids\":".toList).closed "\x7d".toList
    (fun rest => ends_literal (by decide) rest)
  (((nodeId.andThen role fun _ _ => ends_cons (by decide) _).andThen address
    fun _ _ => ends_cons (by decide) _).andThen shardIds fun _ _ => ends_cons (by decide) _).convert
      (fun fields => ⟨fields.1.1.1, fields.1.1.2, fields.1.2, fields.2⟩)
      (fun info => (((info.nodeId, info.role), info.address), info.shardIds)) (fun _ => rfl)

def segmentCodec : JsonCodec SegmentMeta :=
  let segmentId := text.behind "\x7b\"segment_id\":".toList
  let shardId := number.behind ",\"shard_id\":".toList
  let numVectors := number.behind ",\"num_vectors\":".toList
  let snapshotId := number.behind ",\"snapshot_id\":".toList
  let path := (text.behind ",\"path\":".toList).closed "\x7d".toList
    (fun rest => ends_literal (by decide) rest)
  ((((segmentId.andThen shardId fun _ _ => ends_cons (by decide) _).andThen numVectors
    fun _ _ => ends_cons (by decide) _).andThen snapshotId
      fun _ _ => ends_cons (by decide) _).andThen path fun _ _ => ends_cons (by decide) _).convert
      (fun fields => ⟨fields.1.1.1.1, fields.1.1.1.2, fields.1.1.2, fields.1.2, fields.2⟩)
      (fun segMeta => ((((segMeta.segmentId, segMeta.shardId), segMeta.numVectors),
        segMeta.snapshotId), segMeta.path)) (fun _ => rfl)

example : String.ofList (nodeCodec.write ⟨"reader-0", "reader", "http://reader-0:8200", [0]⟩) =
    "\x7b\"node_id\":\"reader-0\",\"role\":\"reader\"," ++
      "\"address\":\"http://reader-0:8200\",\"shard_ids\":[0]\x7d" := by
  decide +kernel

/-- A coordinator on its own, with a call to the store every nanosecond. -/
def soleCoordinator (searchFanoutMode : String) : CoordinatorEnv where
  nodeId := "coordinator-0"
  nodeRole := "coordinator"
  writerUrl := "http://writer-0:8100"
  searchFanoutMode := searchFanoutMode
  named := ⟨(by decide : "coordinator-0" ≠ ""), (by decide : "coordinator" ≠ ""),
    (by decide : "http://" ++ "coordinator-0" ++ ":8000" ≠ "")⟩
  hash := String.length
  nodeJson := jsonModel nodeCodec NodeInfo.Valid
  segmentJson := jsonModel segmentCodec SegmentMeta.Valid
  wait _ := 1

end VecScale
