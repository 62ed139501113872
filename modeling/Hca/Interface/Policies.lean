import Hca.Interface.Bytecode
import Hca.Interface.JsonFields

set_option autoImplicit false

/-!
# Policies as texts

What an array of JSON objects has to declare for the command line tool to make an account of it,
said of the objects alone: no reader and no tree is run.
-/

namespace Hca.Interface

open Hca.Model Hca.Program

/-- The object declares the leaf: version and script as byte strings that may be in a tree, and
a description that is empty where none is given. -/
structure DeclaresLeaf (v : Value) (l : Leaf) : Prop where
  version : declaredBytes (v.index "version") = some [l.version]
  script : declaredBytes (v.index "script") = some l.script
  description : l.description = (v.index "description").asStr.getD ""
  admissible : Admissible l.version l.script

/-- The objects declare a policy: a leaf each, not too many of them, and no two with the same
version and script. -/
structure DeclaresPolicy (t : Target) (raw : List Value) (leaves : List Leaf) : Prop where
  items : List.Forall₂ DeclaresLeaf raw leaves
  items_ne : raw ≠ []
  length_le : raw.length ≤ 2 ^ maxTreeDepth
  length_le_usize : raw.length ≤ 2 ^ (t.bits - 1)
  distinct : (leaves.map fun l => (l.version, l.script)).Nodup

end Hca.Interface
