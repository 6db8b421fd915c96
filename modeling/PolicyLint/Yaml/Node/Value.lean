/-
The values of nodes.

A merge key stands for the bindings of the mappings that it names.  Those come
after all bindings written in the mapping itself and are left out where the key
is there already, so that written bindings win; of two merged ones the later
named wins.
-/
import PolicyLint.Yaml.Scalar

namespace PolicyLint
namespace Yaml
namespace Node

/-- True for the key that merges mappings. -/
def isMergeKey : Node → Bool
  | .scalar _ .absent .plain t => t = "<<".toList
  | _ => false

/-- What tells keys apart before they are read: text and tag. -/
def fingerprint : Node → Option (Text × Tag)
  | .scalar _ tag _ t => some (t, tag)
  | _ => none

/-- The text of a key. -/
def keyText : Node → Except Fault Text
  | .scalar mark tag style t => Scalar.key mark tag style t
  | .list mark _ => fail .collectionKey mark
  | .mapping mark _ => fail .collectionKey mark
  | .broken f => .error f

/-- A merged binding that may be left out: its key is still a node and its value
is not looked at before it is used. -/
abbrev Merged := Node × Except Fault Data

/-- The bindings of a mapping so far. -/
structure Bindings where
  /-- Bindings written in the mapping, back to front. -/
  done : List (Text × Data)
  /-- The keys of those. -/
  seen : List (Option (Text × Tag))
  /-- The merged bindings of each merge key, the last one first. -/
  merged : List (List Merged)

/-- Add merged bindings whose keys are not there yet. -/
def Bindings.addMerged (done : List (Text × Data)) (seen : List (Option (Text × Tag))) :
    List Merged → Except Fault (List (Text × Data))
  | [] => .ok done
  | (key, value) :: rest =>
    if seen.contains key.fingerprint then addMerged done seen rest
    else do
      let k ← key.keyText
      let v ← value
      addMerged ((k, v) :: done) (key.fingerprint :: seen) rest

/-- All bindings of a mapping, in order. -/
def Bindings.finish (b : Bindings) : Except Fault Data := do
  let done ← addMerged b.done b.seen b.merged.flatten
  .ok (.mapping done.reverse)

mutual

/-- The value of a node.  The first fault in the order of the document counts. -/
def value : Node → Except Fault Data
  | .scalar mark tag style t => Scalar.value mark tag style t
  | .list _ items => values [] items
  | .mapping _ parts => bindings ⟨[], [], []⟩ parts
  | .broken f => .error f

/-- The values of a list's items, after those in `done`. -/
def values (done : List Data) : List Node → Except Fault Data
  | [] => .ok (.list done.reverse)
  | n :: rest =>
    match value n with
    | .ok v => values (v :: done) rest
    | .error f => .error f

/-- The bindings that the parts of a mapping give. -/
def bindings (b : Bindings) : List Node → Except Fault Data
  | [] => b.finish
  | [n] =>
    match fault? n with
    | some f => .error f
    | none => b.finish
  | key :: v :: rest =>
    match fault? key with
    | some f => .error f
    | none =>
      if isMergeKey key then
        match fault? v with
        | some f => .error f
        | none =>
          match mergedBy v with
          | .ok ms => bindings { b with merged := ms :: b.merged } rest
          | .error f => .error f
      else
        match keyText key with
        | .error f => .error f
        | .ok k =>
          match value v with
          | .error f => .error f
          | .ok d =>
            bindings { b with done := (k, d) :: b.done, seen := key.fingerprint :: b.seen } rest

/-- The bindings that the value of a merge key stands for. -/
def mergedBy : Node → Except Fault (List Merged)
  | .scalar mark _ style t =>
    if style = .plain && isNullText t then .ok [] else fail .mergeValue mark
  | .list _ items => mergedByAll [] items
  | .mapping _ parts => mergedParts [] [] parts
  | .broken f => .error f

/-- The bindings of several merged mappings, those of the last one first. -/
def mergedByAll (done : List Merged) : List Node → Except Fault (List Merged)
  | [] => .ok done
  | n :: rest =>
    match mergedBy n with
    | .ok ms => mergedByAll (ms ++ done) rest
    | .error f => .error f

/-- The bindings of a merged mapping, then those that it merges itself. -/
def mergedParts (done : List Merged) (inner : List Merged) :
    List Node → Except Fault (List Merged)
  | key :: v :: rest =>
    if isMergeKey key then
      match mergedBy v with
      | .ok ms => mergedParts done (ms ++ inner) rest
      | .error f => .error f
    else mergedParts ((key, value v) :: done) inner rest
  | _ => .ok (done.reverse ++ inner)

end

end Node
end Yaml
end PolicyLint
