import LinkedSchema.Catalog
import LinkedSchema.Registry

/-!
# A sample: the relaxation of a crystal

The inputs of a small workflow that relaxes a crystal structure. They refer to a structure and to
a code whose package reaches the type of package managers along two fields. The sample has the
models, a registry with identifiers, units and descriptions for them, and an instance for silicon.
-/

namespace LinkedSchema.Sample.Relaxation

/-- The kind of a text. -/
def text : Kind := .scalar .string

/-- The kind of a number. -/
def number : Kind := .scalar .number

/-- A list of texts as literals. -/
def literals (texts : List String) : Kind :=
  .enumeration (texts.map .str)

/-- A positive floating-point number as JSON, by its bit pattern. -/
def float (magnitude : Nat) (finite : magnitude < infinityPattern := by decide) : Json :=
  .num (.float { negative := false, magnitude, finite })

/-- The models of the workflow. -/
def models : List Model :=
  [{ name := "RelaxInputs"
     fields :=
      [{ name := "structure", kind := .reference "Structure" },
       { name := "code", kind := .reference "Code" },
       { name := "protocol", kind := literals ["fast", "moderate", "precise"],
         default := some (.str "moderate") },
       { name := "relax_type", kind := literals ["positions", "positions_cell"],
         default := some (.str "positions") },
       { name := "kpoints_distance", kind := number, default := some (float 0x3FC3333333333333) },
       { name := "max_iterations", kind := .scalar .integer, default := some (.num (.int 5)) },
       { name := "pseudo_family", kind := .nullable text, default := some .null }] },
   { name := "Structure"
     fields :=
      [{ name := "name", kind := text },
       { name := "cell", kind := .collection (.collection number) },
       { name := "sites", kind := .collection (.reference "Site") },
       { name := "pbc", kind := .collection (.scalar .boolean),
         default := some (.arr [.bool true, .bool true, .bool true]) }] },
   { name := "Site"
     fields :=
      [{ name := "symbol", kind := text },
       { name := "position", kind := .collection number }] },
   { name := "Code"
     fields :=
      [{ name := "label", kind := text },
       { name := "package", kind := .reference "Package" }] },
   { name := "Package"
     fields :=
      [{ name := "name", kind := text },
       { name := "version", kind := text },
       { name := "package_manager", kind := .reference "PackageManager" },
       { name := "build_manager", kind := .nullable (.reference "PackageManager"),
         default := some .null }] },
   { name := "PackageManager"
     fields :=
      [{ name := "name", kind := text },
       { name := "channel", kind := .nullable text, default := some .null }] }]

/-- The catalog of the workflow. -/
def catalog : Catalog :=
  .ofModels models

/-- The class identifiers of the workflow. -/
def classes : List (String × String) :=
  [("RelaxInputs", "cw:relax/RelaxInputs"), ("Structure", "https://w3id.org/cw/Structure"),
   ("Site", "cw:Site"), ("Code", "cw:Code"), ("Package", "cw:Package"),
   ("PackageManager", "cw:PackageManager")]

/-- The metadata of the fields of the workflow. -/
def metadata : List (String × String × FieldMetadata) :=
  [("RelaxInputs", "protocol", { id := some "cw:scf/Protocol" }),
   ("RelaxInputs", "relax_type", { id := some "cw:relax/RelaxType" }),
   ("RelaxInputs", "kpoints_distance",
     { id := some "cw:scf/KpointsDistance"
       unit := some "1/Å"
       description := some "Maximum distance between k-points in reciprocal space" }),
   ("RelaxInputs", "max_iterations", { id := some "cw:relax/MaxIterations" }),
   ("Structure", "name", { id := some "cw:Structure/Name" }),
   ("Structure", "cell", { id := some "cw:Structure/Cell", unit := some "Å" }),
   ("Site", "symbol", { id := some "cw:Site/Symbol" }),
   ("Site", "position", { id := some "cw:Site/Position", unit := some "Å" }),
   ("Code", "label", { id := some "cw:Code/Label" }),
   ("Package", "name", { id := some "cw:Package/Name" }),
   ("Package", "version", { id := some "cw:Package/Version" }),
   ("PackageManager", "name", { id := some "cw:PackageManager/Name" })]

/-- The registry of the workflow, still open to registrations. -/
def registry : Registry :=
  let typed := classes.foldl (fun registry entry => registry.putClass entry.1 entry.2) ∅
  metadata.foldl (fun registry entry => registry.putField entry.1 entry.2.1 entry.2.2) typed

/-- The root model of the workflow. -/
def root : String := "RelaxInputs"

/-- Inputs for silicon. -/
def silicon : Json :=
  let zero := Json.num (.float (.zero false))
  let half := float 0x4005B851EB851EB8
  let quarter := float 0x3FF5B851EB851EB8
  .obj
    [("structure", .obj
      [("name", .str "Si2"),
       ("cell", .arr [.arr [zero, half, half], .arr [half, zero, half], .arr [half, half, zero]]),
       ("sites", .arr
        [.obj [("symbol", .str "Si"), ("position", .arr [zero, zero, zero])],
         .obj [("symbol", .str "Si"), ("position", .arr [quarter, quarter, quarter])]])]),
     ("code", .obj
      [("label", .str "pw-7.2@localhost"),
       ("package", .obj
        [("name", .str "quantum-espresso"),
         ("version", .str "7.2"),
         ("package_manager", .obj [("name", .str "conda"), ("channel", .str "conda-forge")]),
         ("build_manager", .obj [("name", .str "spack")])])]),
     ("protocol", .str "fast")]

end LinkedSchema.Sample.Relaxation
