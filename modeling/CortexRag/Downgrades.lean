-- The migrations from revision 098482a100da to head and back, with the documents
-- and the jobs. The revision 9555bfdd5c43 adds two tables, which its downgrade
-- drops, and changes no other.
import CortexRag.JsonEquality
import CortexRag.Migrations

open keyed_rows json_values

namespace cortex_rag.migrations

/-! ## The tables -/

/-- A row of `processing_jobs` at revision 098482a100da. -/
structure BaseJob where
  id : UUID
  document_id : UUID
  tenant_id : String
  job_type : String
  status : String
  attempts : Int
  error : Option String
  payload : Json
  created_at : DateTime
  updated_at : DateTime

/-- The documents and the jobs at revision 098482a100da. -/
structure BaseDatabase where
  documents : List BaseDocument
  jobs : List BaseJob
  keyed : Keyed BaseDocument.id documents

/-- A row of `knowledge_documents` after the downgrades, which make the columns of the
file anew, as ones that may be null. -/
structure DowngradedDocument where
  id : UUID
  tenant_id : String
  collection_id : Option UUID
  original_filename : Option String
  filename : Option String
  extension : Option String
  mime_type : Option String
  size : Option Int
  checksum_sha256 : Option String
  storage_provider : Option String
  storage_path : Option String
  uploaded_by : Option String
  status : String
  metadata : Json
  page_count : Option Int
  deleted_at : Option DateTime
  created_at : DateTime
  updated_at : DateTime

structure DowngradedDatabase where
  documents : List DowngradedDocument
  jobs : List BaseJob

/-! ## The jobs -/

namespace d4e8f1a29b30

/-- What `upgrade` makes of a job. The new columns are null or have their default. -/
def upgrade_row (j : BaseJob) : ProcessingJobRow where
  id := j.id
  document_id := j.document_id
  tenant_id := j.tenant_id
  job_type := j.job_type
  status := j.status
  version_id := none
  priority := 0
  retry_count := j.attempts
  progress := 0
  worker_name := none
  error_message := j.error
  started_at := none
  finished_at := none
  created_at := j.created_at
  updated_at := j.updated_at

/-- What `downgrade` makes of a job. -/
def downgrade_row (j : ProcessingJobRow) : BaseJob where
  id := j.id
  document_id := j.document_id
  tenant_id := j.tenant_id
  job_type := j.job_type
  status := j.status
  attempts := j.retry_count
  error := j.error_message
  payload := .object []
  created_at := j.created_at
  updated_at := j.updated_at

end d4e8f1a29b30

/-! ## The documents -/

namespace c3d9e1f42a76

/-- `metadata -> 'custom_properties'`, of metadata in binary form. -/
def custom_properties : Json → Option Json
  | .object fields => fields.lookup (.plain "custom_properties")
  | _ => none

/-- The row after both `UPDATE`s of the downgrade. -/
def unwrapped (numeric : String → Option String) (d : KnowledgeDocumentRow) :
    Except PyException KnowledgeDocumentRow :=
  match to_jsonb numeric d.metadata with
  | none => .error DataError
  | some metadata => .ok { d with
      metadata := (custom_properties metadata).getD (.object [])
      source_type := "file_upload" }

def downgrade (numeric : String → Option String) (t : Tables) : Except PyException Tables := do
  let documents ← t.documents.mapM (unwrapped numeric)
  return { t with documents }

end c3d9e1f42a76

namespace b7f2c9a4d1e8

/-- The row of a document after the `UPDATE ... FROM` of the downgrade. Without an
active version the columns of the file stay null. -/
def downgrade_row (versions : List KnowledgeDocumentVersionRow) (d : KnowledgeDocumentRow) :
    DowngradedDocument :=
  let version := versions.find? (fun v => d.current_version_id = some v.id)
  { id := d.id
    tenant_id := d.tenant_id
    collection_id := version.bind (fun _ => d.knowledge_space_id)
    original_filename := version.map (fun v => v.original_filename)
    filename := version.map (fun v => v.filename)
    extension := version.map (fun v => v.extension)
    mime_type := version.map (fun v => v.mime_type)
    size := version.map (fun v => v.size)
    checksum_sha256 := version.map (fun v => v.checksum_sha256)
    storage_provider := version.map (fun v => v.storage_provider)
    storage_path := version.map (fun v => v.storage_path)
    uploaded_by := version.bind (fun v => v.uploaded_by)
    status := d.status
    metadata := d.metadata
    page_count := version.bind (fun v => v.page_count)
    deleted_at := d.deleted_at
    created_at := d.created_at
    updated_at := d.updated_at }

def downgrade (t : Tables) : List DowngradedDocument :=
  t.documents.map (downgrade_row t.versions)

end b7f2c9a4d1e8

/-! ## To head and back -/

def upgrade_to_head (gen_random_uuid : UUID → UUID) (lower : String → String)
    (numeric : String → Option String) (db : BaseDatabase) : Except PyException HeadDatabase := do
  let tables ← upgraded gen_random_uuid lower numeric db.documents
  return { tables, jobs := db.jobs.map d4e8f1a29b30.upgrade_row }

def downgrade_to_base (numeric : String → Option String) (db : HeadDatabase) :
    Except PyException DowngradedDatabase := do
  let jobs := db.jobs.map d4e8f1a29b30.downgrade_row
  let tables ← c3d9e1f42a76.downgrade numeric db.tables
  return { documents := b7f2c9a4d1e8.downgrade tables, jobs }

end cortex_rag.migrations
