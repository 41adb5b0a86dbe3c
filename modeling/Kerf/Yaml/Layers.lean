import Kerf.Yaml.Fit

/-!
# Layers of a mapping

A mapping can merge others under the key `<<`. They are read after it, one by one, and give only
what has not been given before.
-/

set_option autoImplicit false

namespace Kerf.Yaml

def Node.isMerge : Node → Bool
  | .scalar _ tag text => tag == "!!merge" && text == "<<"
  | _ => false

/-- What reading a mapping meets. -/
inductive Layer where
  /-- The entries of a mapping, without what it merges. -/
  | entries (content : List (Node × Node))
  /-- A mapping that gives a key more than once is not read. -/
  | repeated (texts : List String)
  /-- Here the reading ends. -/
  | fault (cause : Fault)

mutual

def mappingLayers (entries : List (Node × Node)) : List Layer :=
  let repeated := repeatedKeys entries
  if repeated.isEmpty then
    .entries (entries.filter fun (key, _) => !key.isMerge) :: mergedLayers entries
  else [.repeated repeated]
termination_by (sizeOf entries, 1)

/-- The layers that entries merge. -/
def mergedLayers (entries : List (Node × Node)) : List Layer :=
  match entries with
  | [] => []
  | (key, value) :: rest =>
      (if key.isMerge then
        match value with
        | .sequence _ _ items => itemLayers items
        | value => valueLayers value
      else []) ++ mergedLayers rest
termination_by (sizeOf entries, 0)
decreasing_by
  all_goals
    simp_wf
    omega

def itemLayers (items : List Node) : List Layer :=
  match items with
  | [] => []
  | item :: rest => valueLayers item ++ itemLayers rest
termination_by (sizeOf items, 2)
decreasing_by
  all_goals
    simp_wf
    omega

/-- The layers of a mapping or of an alias of one. -/
def valueLayers (value : Node) : List Layer :=
  match value with
  | .mapping _ _ entries => mappingLayers entries
  | .alias _ _ (.mapping _ _ entries) => mappingLayers entries
  | .loop _ name true _ _ => [.fault (.endless name)]
  | _ => [.fault .mergeOfOther]
termination_by (sizeOf value, 2)
decreasing_by
  all_goals
    simp_wf
    omega

end

end Kerf.Yaml
