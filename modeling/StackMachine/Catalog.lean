import StackMachine.Registry
import StackMachine.Yaml.Scalar
/-! The opcodes of a registry as a YAML document. -/
namespace StackMachine

structure CatalogEntry where
  number : Int32
  name : String
  params : UInt32
  results : UInt32
  immediates : Int
  builtin : Bool
  implemented : Bool
  docs : String
  deriving DecidableEq, Repr

def Descriptor.catalogEntry (d : Descriptor) : CatalogEntry where
  number := d.number
  name := d.label
  params := d.params
  results := d.results
  immediates := d.immediates
  builtin := d.builtin
  implemented := d.operation.isSome
  docs := d.docs

structure UnwritableCatalog where
  why : String

def UnwritableCatalog.message (e : UnwritableCatalog) : String :=
  "encode catalog: yaml: write error: " ++ e.why

namespace CatalogEntry

def lines (e : CatalogEntry) : List String :=
  ["number: " ++ toString e.number.toInt ++ "\n",
   "name: " ++ Yaml.scalarLine e.name,
   "params: " ++ toString e.params.toNat ++ "\n",
   "results: " ++ toString e.results.toNat ++ "\n",
   "immediates: " ++ toString e.immediates ++ "\n",
   "builtin: " ++ toString e.builtin ++ "\n",
   "implemented: " ++ toString e.implemented ++ "\n"] ++
  (if e.docs.isEmpty then [] else ["docs: " ++ Yaml.scalarLine e.docs])

def yaml (e : CatalogEntry) : String := "  - " ++ "    ".intercalate e.lines

end CatalogEntry

def Registry.catalog (reg : Registry) : List CatalogEntry :=
  reg.descriptors.map Descriptor.catalogEntry

def catalogYaml (entries : List CatalogEntry) : String :=
  if entries.isEmpty then "opcodes: []\n"
  else "opcodes:\n" ++ String.join (entries.map CatalogEntry.yaml)

end StackMachine
