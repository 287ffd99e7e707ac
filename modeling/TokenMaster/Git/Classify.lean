import TokenMaster.Git.Aggregate
import TokenMaster.Lib.Text

/-!
# TokenMaster.Git.Classify — the category of a path

`crates/git/src/classify.rs`.  The rules are tried in the source's order; a path that leaves the
repository has no category.
-/

namespace TokenMaster.Git

open TokenMaster.Domain

def maxGitPathBytes : ℕ := 32 * 1024

def isAsciiAlphabetic (b : UInt8) : Bool := (65 ≤ b && b ≤ 90) || (97 ≤ b && b ≤ 122)

/-- A path that `normalize_relative_path` rejects before it looks at its components. -/
def pathRejected (path : Bytes) : Bool :=
  path.isEmpty || path.length > maxGitPathBytes || path.head? = some 47 || path.head? = some 92 ||
    (path.head?.any isAsciiAlphabetic && path.tail.head? = some 58) || path.contains 0

def normalizeRelativePath (path : Bytes) : Except GitCoreError Bytes := do
  Except.require .invalidPath (!pathRejected path)
  let normalized := path.map fun byte => if byte = 92 then 47 else Text.asciiLower byte
  Except.require .invalidPath
    (!(normalized.splitOn 47).any fun component => component = ascii "." || component = ascii "..")
  return normalized

/-- What follows the last dot, unless nothing does. -/
def extension (fileName : Bytes) : Option Bytes :=
  let suffix := fileName.rtakeWhile (· ≠ 46)
  if suffix.length = fileName.length ∨ suffix = [] then none else some suffix

def hasExtension (fileName : Bytes) (extensions : List Bytes) : Bool :=
  (extension fileName).any extensions.contains

def isTestFile (fileName : Bytes) : Bool :=
  [ascii ".test.", ascii "_test.", ascii ".spec.", ascii "_spec."].any fun window =>
    decide (window <:+: fileName)

def isSchemaFile (fileName : Bytes) : Bool :=
  decide (ascii "migration" <+: fileName) || decide (ascii "schema." <+: fileName) ||
    decide (ascii "_migration.sql" <:+ fileName)

def vendorComponents : List Bytes :=
  ["vendor", "third_party", "node_modules", "generated", "dist", "target", ".cache"].map ascii
def generatedFiles : List Bytes :=
  ["cargo.lock", "package-lock.json", "pnpm-lock.yaml", "yarn.lock", "composer.lock",
    "poetry.lock", "uv.lock"].map ascii
def generatedSuffixes : List Bytes := [".min.js", ".min.css", ".map"].map ascii
def schemaComponents : List Bytes := ["migrations", "migration", "schema", "schemas"].map ascii
def testComponents : List Bytes :=
  ["test", "tests", "spec", "specs", "__tests__", "fixtures"].map ascii
def docComponents : List Bytes := ["doc", "docs", "documentation"].map ascii
def docExtensions : List Bytes := ["md", "mdx", "adoc", "asciidoc", "rst"].map ascii
def docFiles : List Bytes :=
  ["readme", "readme.md", "changelog", "changelog.md", "specification.md"].map ascii
def configComponents : List Bytes :=
  [".github", ".gitlab", ".circleci", "ci", "config", "configs"].map ascii
def configFiles : List Bytes :=
  ["cargo.toml", "package.json", "dockerfile", "makefile", "cmakelists.txt", "justfile", "build.rs",
    "rust-toolchain.toml"].map ascii
def configExtensions : List Bytes :=
  ["toml", "yaml", "yml", "json", "json5", "ini", "cfg", "conf", "xml"].map ascii
def assetExtensions : List Bytes :=
  ["png", "jpg", "jpeg", "gif", "webp", "ico", "svg", "woff", "woff2", "ttf", "otf", "mp3", "wav",
    "ogg", "mp4", "webm", "zip", "7z", "rar", "pdf"].map ascii
def sourceExtensions : List Bytes :=
  ["rs", "c", "h", "cc", "cpp", "cxx", "hpp", "cs", "go", "java", "kt", "kts", "swift", "m", "mm",
    "py", "pyi", "rb", "php", "js", "jsx", "ts", "tsx", "vue", "svelte", "scala", "sh", "ps1", "sql",
    "proto", "graphql", "gql", "slint", "html", "css", "scss", "sass", "less", "lua", "zig", "ex",
    "exs", "erl", "hrl", "fs", "fsx", "vb"].map ascii
def sourceFiles : List Bytes := ["meson.build", "build.gradle", "build.gradle.kts"].map ascii

/-- The first rule that the components and the file name meet. -/
def categoryOf (components : List Bytes) (fileName : Bytes) : GitOutputCategory :=
  if components.any vendorComponents.contains || generatedFiles.contains fileName ||
      generatedSuffixes.any (fun suffix => decide (suffix <:+ fileName)) then .vendorGenerated
  else if components.any schemaComponents.contains || isSchemaFile fileName then .schemaMigration
  else if components.any testComponents.contains || isTestFile fileName then .test
  else if components.any docComponents.contains || hasExtension fileName docExtensions ||
      docFiles.contains fileName then .docsSpec
  else if components.any configComponents.contains || configFiles.contains fileName ||
      hasExtension fileName configExtensions then .configBuild
  else if hasExtension fileName assetExtensions then .asset
  else if hasExtension fileName sourceExtensions || sourceFiles.contains fileName then .productCode
  else .other

def classifyDestinationPath (path : Bytes) : Except GitCoreError GitOutputCategory := do
  let normalized ← normalizeRelativePath path
  let components := (normalized.splitOn 47).filter (· ≠ [])
  let fileName ← Except.okOr .invalidPath components.getLast?
  return categoryOf components fileName

example : classifyDestinationPath (ascii "src/Lib.rs") = .ok .productCode := by decide +kernel
example : classifyDestinationPath (ascii "a/../b") = .error .invalidPath := by decide +kernel

end TokenMaster.Git
